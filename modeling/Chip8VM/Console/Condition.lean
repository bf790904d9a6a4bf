import Chip8VM.Console.Basic

/-!
# Conditions

What one can wait for on a console: a value in the machine, a number of calls of the buzzer, or a
number of alarms. A condition on the machine does not hold while the machine cannot be had.
-/

set_option autoImplicit false

namespace Chip8VM

/-- Something to wait for. -/
inductive Condition where
  | pc (n : Nat)
  | index (n : Nat)
  | depth (n : Nat)
  | delay (n : Nat)
  | sound (n : Nat)
  | lit (n : Nat)
  | v0 (n : Nat)
  /-- The buzzer's record holds at least so many calls. -/
  | tones (least : Nat)
  /-- At least so many alarms were logged. -/
  | alarms (least : Nat)
deriving DecidableEq, Repr

namespace Condition

/-- Whether something holds of the state of the machine, which one must be able to have. -/
def ofState (c : Console) (p : State → Bool) : Bool :=
  match c.inspect (·.state) with
  | .ok s => p s
  | .error _ => false

/-- Whether a condition holds. -/
def holds (c : Console) : Condition → Bool
  | .pc n => ofState c (·.pc.toNat == n)
  | .index n => ofState c (·.index.toNat == n)
  | .depth n => ofState c (·.calls.depth == n)
  | .delay n => ofState c (·.delay.toNat == n)
  | .sound n => ofState c (·.sound.toNat == n)
  | .lit n => ofState c (·.frame.lit == n)
  | .v0 n => ofState c (·.v0.toNat == n)
  | .tones least => c.buzzer.record.length ≥ least
  | .alarms least => c.alarms.length ≥ least

end Condition

end Chip8VM
