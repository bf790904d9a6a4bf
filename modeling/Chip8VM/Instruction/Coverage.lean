import Chip8VM.Instruction.Encoding

/-!
# Which words are instructions

The words of an interval that decode, as a count and as maximal runs.
-/

set_option autoImplicit false

namespace Chip8VM.Instruction

/-- Whether the number is a word that stands for an instruction. -/
def isKnown (n : Nat) : Bool := (decode? (UInt16.ofNat n)).isSome

/-- The words from `first` to `last` that stand for an instruction, in rising order. -/
def known (first last : Nat) : List Nat :=
  (List.range' first (last + 1 - first)).filter isKnown

/-- Puts a number in front of runs of consecutive numbers, each run given by its ends. -/
def extendRuns (n : Nat) : List (Nat × Nat) → List (Nat × Nat)
  | (first, last) :: rest =>
    if n + 1 = first then (n, last) :: rest else (n, n) :: (first, last) :: rest
  | [] => [(n, n)]

/-- The maximal runs of consecutive numbers in a rising list, each given by its ends. -/
def runs (numbers : List Nat) : List (Nat × Nat) :=
  numbers.foldr extendRuns []

end Chip8VM.Instruction
