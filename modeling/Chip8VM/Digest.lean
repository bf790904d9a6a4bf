/-!
# Checksums

The 32-bit Fowler–Noll–Vo hash of a run of bytes, in the variant that mixes a byte in before it
multiplies.
-/

set_option autoImplicit false

namespace Chip8VM.Digest

/-- The hash of no bytes. -/
def start : UInt32 := 0x811c9dc5

/-- Mixes one byte into a hash. -/
def mix (h : UInt32) (b : UInt8) : UInt32 := (h ^^^ b.toUInt32) * 0x01000193

/-- The hash of the bytes. -/
def ofBytes (bytes : List UInt8) : UInt32 := bytes.foldl mix start

end Chip8VM.Digest
