import Chip8VM.Digest
import Chip8VM.State.Basic

/-!
# A state in one line

Registers, counters, live return addresses, timers and keys in full; the screen and memory by their
checksums.
-/

set_option autoImplicit false

namespace Chip8VM.State

/-- The checksum of the screen, a cell counting as the byte 1 if lit and 0 if not. -/
def frameDigest (s : State) : UInt32 :=
  Digest.ofBytes (s.frame.cells.toList.map Bool.toUInt8)

/-- The checksum of memory. -/
def memoryDigest (s : State) : UInt32 := Digest.ofBytes s.memory.bytes.toList

/-- One line that describes the state. -/
def summary (s : State) : String :=
  let live := ",".intercalate (s.calls.entries.map fun a => Hex.lower 4 a.toNat)
  " ".intercalate
    ["pc=" ++ Hex.lower 4 s.pc.toNat, "i=" ++ Hex.lower 4 s.index.toNat,
     s!"sp={s.calls.depth}", "stack=[" ++ live ++ "]", "v=" ++ Hex.ofBytes s.v.toList,
     "dt=" ++ Hex.lower 2 s.delay.toNat, "st=" ++ Hex.lower 2 s.sound.toNat,
     "keys=" ++ Hex.lower 4 s.keys.mask, "draw=" ++ (if s.drawn then "1" else "0"),
     "fb=" ++ Hex.lower 8 s.frameDigest.toNat, "mem=" ++ Hex.lower 8 s.memoryDigest.toNat]

end Chip8VM.State
