/-!
# Numerals on the command line

Whole decimal numbers with an optional sign, and key numbers in hexadecimal. Digits are those of
ASCII, and there are no separators and no blanks.
-/

set_option autoImplicit false

namespace Chip8VM.Numeral

/-- The number of a run of digits behind the digits of `acc`, `digit` giving the value of one. -/
def valueFrom (base : Nat) (digit : Char → Option Nat) (acc : Nat) : List Char → Option Nat
  | [] => some acc
  | c :: rest => do valueFrom base digit (base * acc + (← digit c)) rest

/-- The number of a run of digits, of which there must be one at least. -/
def value? (base : Nat) (digit : Char → Option Nat) : List Char → Option Nat
  | [] => none
  | c :: rest => valueFrom base digit 0 (c :: rest)

/-- The value of a decimal digit. -/
def decimalDigit (c : Char) : Option Nat :=
  if '0' ≤ c ∧ c ≤ '9' then some (c.toNat - '0'.toNat) else none

/-- The characters behind an optional `+`. -/
def dropPlus : List Char → List Char
  | '+' :: rest => rest
  | cs => cs

/-- A decimal number with an optional `+`. -/
def unsigned? (text : String) : Option Nat := value? 10 decimalDigit (dropPlus text.toList)

/-- A decimal number with an optional sign. -/
def signed? (text : String) : Option Int :=
  match text.toList with
  | '-' :: rest => (value? 10 decimalDigit rest).map fun n => -(n : Int)
  | cs => (value? 10 decimalDigit (dropPlus cs)).map Int.ofNat

end Chip8VM.Numeral
