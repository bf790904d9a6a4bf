import Chip8VM.CallStack
import Chip8VM.Frame.Basic
import Chip8VM.Instruction.Basic
import Chip8VM.Keypad
import Chip8VM.Memory.Basic

/-!
# The state of the machine

Registers, counter, call stack, timers, memory, screen and keys: everything that an instruction can
see or change.
-/

set_option autoImplicit false

namespace Chip8VM

/-- A snapshot of the machine. -/
structure State where
  /-- The registers `V0` to `VF`. -/
  v : Vector UInt8 16
  /-- The register `I`, which addresses memory. -/
  index : Word
  /-- The address of the next instruction. -/
  pc : Word
  calls : CallStack
  /-- The delay timer, which programs can read. -/
  delay : UInt8
  /-- The sound timer; the tone sounds while it is not zero. -/
  sound : UInt8
  memory : Memory
  frame : Frame
  keys : Keypad
  /-- Whether the screen was drawn on since the frame was last taken. -/
  drawn : Bool
deriving DecidableEq

namespace State

/-- The state at power-on. -/
def powerOn : State where
  v := Vector.replicate 16 0
  index := 0
  pc := 0x200
  calls := .empty
  delay := 0
  sound := 0
  memory := .powerOn
  frame := .blank
  keys := .idle
  drawn := false

/-- The first register, the offset of a jump into a table. -/
def v0 (s : State) : UInt8 := s.v[0]

/-- The word at the counter. -/
def fetch (s : State) : Except Fault Word := do
  let bytes ← s.memory.read s.pc.toNat 2
  return .ofBytes bytes[0] bytes[1]

end State

end Chip8VM
