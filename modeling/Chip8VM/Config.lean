import Chip8VM.Error
import Chip8VM.Frame.Wrap

/-!
# Configuration

The rates of the two clocks, the way sprites wrap, and whether the buzzer is muted.
-/

set_option autoImplicit false

namespace Chip8VM

/-- How a console runs its machine. -/
structure Config where
  /-- Instructions a second. -/
  instructionHz : UInt32 := 2000
  /-- Times a second that the timers are counted down. -/
  timerHz : UInt32 := 60
  wrap : Wrap := .flat
  /-- Whether the buzzer is left alone. -/
  muted : Bool := false
deriving DecidableEq, Repr

namespace Config

/-- Refuses a clock that stands still; the instruction clock is looked at first. -/
def validate (c : Config) : Except Error Unit :=
  if c.instructionHz = 0 then .error (.clockRate c.instructionHz)
  else if c.timerHz = 0 then .error (.clockRate c.timerHz)
  else .ok ()

/-- Nanoseconds in a second. -/
def second : Nat := 1000000000

/-- Whole nanoseconds between two ticks of a clock. One that stands still has no such number. -/
def period? (hz : UInt32) : Option Nat :=
  if hz = 0 then none else some (second / hz.toNat)

/-- The name of a way to wrap. -/
def wrapName : Wrap → String
  | .flat => "Flat"
  | .toroidal => "Toroidal"

/-- The configuration with the names of its fields. -/
def describe (c : Config) : String :=
  s!"Config \x7b instruction_hz: {c.instructionHz}, timer_hz: {c.timerHz}, " ++
    s!"sprite_wrap: {wrapName c.wrap}, muted: {c.muted} \x7d"

end Config

end Chip8VM
