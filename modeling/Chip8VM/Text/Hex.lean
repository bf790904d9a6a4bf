/-!
# Hexadecimal text

Numerals of a least width in either case, and bytes as pairs of digits. `bytes?` reads what
`ofBytes` writes (`bytes?_ofBytes`).
-/

set_option autoImplicit false

namespace Chip8VM.Hex

/-- The digits of `n`, padded with zeros on the left to at least `width` of them. -/
def digits (width n : Nat) : List Char :=
  (Nat.toDigits 16 n).leftpad width '0'

/-- The numeral of `n` with the digits `0` to `f`. -/
def lower (width n : Nat) : String :=
  String.ofList (digits width n)

/-- The numeral of `n` with the digits `0` to `F`. -/
def upper (width n : Nat) : String :=
  String.ofList ((digits width n).map Char.toUpper)

/-- The value of a digit in either case. -/
def digit? (c : Char) : Option Nat :=
  if '0' ≤ c ∧ c ≤ '9' then some (c.toNat - '0'.toNat)
  else if 'a' ≤ c ∧ c ≤ 'f' then some (c.toNat - 'a'.toNat + 10)
  else if 'A' ≤ c ∧ c ≤ 'F' then some (c.toNat - 'A'.toNat + 10)
  else none

/-- A digit stands for one of the first sixteen numbers. -/
theorem digit?_lt {c : Char} {d : Nat} (h : digit? c = some d) : d < 16 := by
  unfold digit? at h
  split at h
  · rename_i hc
    have : c.toNat ≤ 57 := hc.2
    have : '0'.toNat = 48 := rfl
    grind
  · split at h
    · rename_i hc
      have : c.toNat ≤ 102 := hc.2
      have : 'a'.toNat = 97 := rfl
      grind
    · split at h
      · rename_i hc
        have : c.toNat ≤ 70 := hc.2
        have : 'A'.toNat = 65 := rfl
        grind
      · simp at h

/-- The bytes as pairs of digits, without separators. -/
def ofBytes (bytes : List UInt8) : String :=
  String.join (bytes.map fun b => lower 2 b.toNat)

/-- The bytes that pairs of digits stand for, put in front of `acc` in reverse. -/
def bytesFrom (acc : List UInt8) : List Char → Option (List UInt8)
  | [] => some acc.reverse
  | [_] => none
  | high :: low :: rest => do
    let h ← digit? high
    let l ← digit? low
    bytesFrom (UInt8.ofNat (16 * h + l) :: acc) rest

/-- Reads pairs of digits. -/
def bytes? (text : String) : Option (List UInt8) :=
  bytesFrom [] text.toList

theorem digit?_digitChar {d : Nat} (h : d < 16) : digit? d.digitChar = some d := by
  have : ∀ d < 16, digit? d.digitChar = some d := by decide
  exact this d h

/-- A number below 256 has two digits. -/
theorem digits_two {n : Nat} (h : n < 256) :
    digits 2 n = [(n / 16).digitChar, (n % 16).digitChar] := by
  by_cases h16 : n < 16
  · rw [digits, Nat.toDigits_of_lt_base h16, Nat.div_eq_of_lt h16, Nat.mod_eq_of_lt h16]
    rfl
  · have h1 : Nat.toDigits 16 n = [(n / 16).digitChar, (n % 16).digitChar] := by
      have h := Nat.toDigits_append_toDigits (b := 16) (n := n / 16) (d := n % 16)
        (by decide) (by omega) (by omega)
      rw [Nat.toDigits_of_lt_base (by omega), Nat.toDigits_of_lt_base (by omega),
        Nat.div_add_mod] at h
      exact h.symm
    rw [digits, h1]
    rfl

theorem bytesFrom_ofBytes (acc bytes : List UInt8) :
    bytesFrom acc (bytes.flatMap fun b => digits 2 b.toNat) = some (acc.reverse ++ bytes) := by
  induction bytes generalizing acc with
  | nil => simp [bytesFrom]
  | cons b rest ih =>
    have hb := b.toNat_lt
    have hv : 16 * (b.toNat / 16) + b.toNat % 16 = b.toNat := by omega
    simp only [List.flatMap_cons, digits_two hb, List.cons_append, List.nil_append, bytesFrom,
      digit?_digitChar (show b.toNat / 16 < 16 by omega),
      digit?_digitChar (show b.toNat % 16 < 16 by omega),
      Option.bind_eq_bind, Option.bind_some, hv, UInt8.ofNat_toNat, ih]
    simp

theorem bytes?_ofBytes (bytes : List UInt8) : bytes? (ofBytes bytes) = some bytes := by
  have := bytesFrom_ofBytes [] bytes
  simpa [bytes?, ofBytes, lower, List.flatMap_map] using this

end Chip8VM.Hex
