import Chip8VM.Text.Hex
import Chip8VM.Word

/-!
# What can go wrong

`Fault` holds the ways in which a program can get stuck on an instruction. `Trap` holds the failures
of the machine's own bookkeeping: a counter that would leave its 16 bits, or a place on the call
stack that does not exist. Programs cause faults; no machine that starts from power-on ever traps.
`Error` adds what the other operations can report, and `Error.message` is its text.
-/

set_option autoImplicit false

namespace Chip8VM

/-- Why an instruction of a program cannot be carried out. -/
inductive Fault where
  /-- The call at `pc` finds all sixteen slots of the call stack taken. -/
  | stackOverflow (pc : Word)
  /-- The return at `pc` finds the call stack empty. -/
  | stackUnderflow (pc : Word)
  /-- The word at `pc` stands for no instruction. -/
  | unknownInstruction (word pc : Word)
  /-- Memory ends before the bytes asked for; `address` is the first one that is not there. -/
  | outOfRange (address : Nat)
deriving DecidableEq, Repr

/-- Why the machine itself cannot go on. -/
inductive Trap where
  /-- A counter would become `value`, which no word holds. -/
  | tooLarge (value : Nat)
  /-- The call stack has no such slot. -/
  | noSlot (slot : Nat)
  /-- The call stack has no address to take away. -/
  | noEntry
deriving DecidableEq, Repr

/-- What an operation on a machine or a console reports when it fails. -/
inductive Error where
  /-- A program image of `size` bytes does not fit into the `max` bytes there are for it. -/
  | imageTooLarge (size max : Nat)
  /-- The program image could not be read. -/
  | unreadable (reason : String)
  /-- A program is stuck on an instruction. -/
  | fault (f : Fault)
  /-- The keypad has no such key. -/
  | noSuchKey (key : UInt8)
  /-- A clock cannot run at this rate. -/
  | clockRate (hz : UInt32)
  /-- The clocks run already. -/
  | alreadyRunning
  /-- The machine was left in the hands of a thread that died. -/
  | poisoned
  /-- The thread of the clocks died. -/
  | clockDied
deriving DecidableEq, Repr

/-- A number as messages show it: at least four digits in capitals. -/
def showWord (n : Nat) : String := "0x" ++ Hex.upper 4 n

/-- The text of a fault. -/
def Fault.message : Fault → String
  | .stackOverflow pc =>
    s!"stack overflow: call at {showWord pc.toNat} exceeds 16 nested subroutines"
  | .stackUnderflow pc =>
    s!"stack underflow: return at {showWord pc.toNat} with an empty call stack"
  | .unknownInstruction word pc =>
    s!"unknown opcode {showWord word.toNat} at {showWord pc.toNat}"
  | .outOfRange address => s!"memory access out of bounds at {showWord address}"

/-- The text of an error. -/
def Error.message : Error → String
  | .imageTooLarge size max => s!"ROM is too large ({size} bytes), max size is {max} bytes"
  | .unreadable reason => s!"I/O error: {reason}"
  | .fault f => f.message
  | .noSuchKey key => "key 0x" ++ Hex.upper 2 key.toNat ++ " is outside the keypad 0x0..0xF"
  | .clockRate hz => s!"clock rate must be non-zero, got {hz}Hz"
  | .alreadyRunning => "clocks are already running"
  | .poisoned => "machine state lock was poisoned by a panicking thread"
  | .clockDied => "clock thread panicked"

end Chip8VM
