/-!
# Random bytes

An endless supply of bytes and how many of them have been taken.
-/

set_option autoImplicit false

namespace Chip8VM

/-- The bytes that random instructions are given, in order. -/
structure Supply where
  /-- The byte for each draw, counted from 0. -/
  byte : Nat → UInt8
  /-- The number of bytes taken so far. -/
  taken : Nat

namespace Supply

/-- The byte that the next draw gives. -/
def peek (u : Supply) : UInt8 := u.byte u.taken

/-- The supply after one draw. -/
def advance (u : Supply) : Supply := { u with taken := u.taken + 1 }

/-- The supply that gives the bytes of an array and zeros behind them. -/
def ofArray (bytes : Array UInt8) : Supply := ⟨fun k => (bytes[k]?).getD 0, 0⟩

/-- Spreads the bits of a number over all its places, so that neighbours have nothing in common. -/
def scatter (z : UInt64) : UInt64 :=
  let z := (z ^^^ (z >>> 30)) * 0xBF58476D1CE4E5B9
  let z := (z ^^^ (z >>> 27)) * 0x94D049BB133111EB
  z ^^^ (z >>> 31)

/-- The supply that grows from a seed: the byte for each draw is scattered out of the seed and the
number of the draw. -/
def ofSeed (seed : UInt64) : Supply :=
  ⟨fun k => (scatter (seed + 0x9E3779B97F4A7C15 * UInt64.ofNat (k + 1))).toUInt8, 0⟩

end Supply

end Chip8VM
