/-!
# The buzzer

Whatever makes the tone is told when the tone turns on and off. A buzzer may break down while it is
being told, which is known beforehand for each of its calls.
-/

set_option autoImplicit false

namespace Chip8VM

/-- A device that is told of the tone. -/
structure Buzzer where
  /-- Whether it keeps a record of what it is told. -/
  recording : Bool
  /-- The calls, counted from 0, in which it breaks down after it was told. -/
  breaksAt : Nat → Bool
  /-- What it was told so far, oldest first. -/
  calls : List Bool

namespace Buzzer

/-- A buzzer that makes no sound and keeps no record. -/
def silent : Buzzer := ⟨false, fun _ => false, []⟩

/-- A buzzer that keeps a record and never breaks down. -/
def recorder : Buzzer := ⟨true, fun _ => false, []⟩

/-- A buzzer that keeps a record and breaks down in its first call only. -/
def fragile : Buzzer := ⟨true, fun k => k == 0, []⟩

/-- Tells the buzzer that the tone turns on or off. The reply is whether it broke down. -/
def setTone (b : Buzzer) (active : Bool) : Bool × Buzzer :=
  (b.breaksAt b.calls.length, { b with calls := b.calls ++ [active] })

/-- What the buzzer's record holds. -/
def record (b : Buzzer) : List Bool := if b.recording then b.calls else []

end Buzzer

end Chip8VM
