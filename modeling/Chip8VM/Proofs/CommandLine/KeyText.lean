import Chip8VM.Proofs.CommandLine.Held
import Chip8VM.Proofs.Machine.Run

/-!
# Texts that name keys

A text names a key if it is a digit of the key's value behind any number of zeros and an optional
`+` (`CommandLine.parseKey?_eq_some_iff`): any other digit in front of the last one would make the
number 16 at least, and no digit behind it takes that back. So it does not matter how much room
there is for the number, as long as it holds those below 16: eight bits do (`Numeral.byte?_eq`).
-/

set_option autoImplicit false

namespace Chip8VM

/-! ## Digits -/

namespace Hex

theorem toNat_lt_of_digit? {c : Char} {d : Nat} (h : digit? c = some d) : c.toNat < 128 := by
  have hle : ∀ b : Char, c ≤ b → c.toNat ≤ b.toNat := fun b hb => hb
  unfold digit? at h
  split at h
  · next hc => exact Nat.lt_of_le_of_lt (hle '9' hc.2) (by decide)
  · split at h
    · next hc => exact Nat.lt_of_le_of_lt (hle 'f' hc.2) (by decide)
    · split at h
      · next hc => exact Nat.lt_of_le_of_lt (hle 'F' hc.2) (by decide)
      · cases h

/-- The digits in either case. -/
theorem digit?_eq_some_iff {c : Char} {d : Nat} :
    digit? c = some d ↔ d < 16 ∧ (c = d.digitChar ∨ c = d.digitChar.toUpper) := by
  constructor
  · intro h
    have hread : ∀ n < 128, ∀ d < 16, digit? (Char.ofNat n) = some d →
        Char.ofNat n = d.digitChar ∨ Char.ofNat n = d.digitChar.toUpper := by
      decide +kernel
    have hchar := hread c.toNat (toNat_lt_of_digit? h) d (digit?_lt h)
    rw [Char.ofNat_toNat] at hchar
    exact ⟨digit?_lt h, hchar h⟩
  · rintro ⟨hd, rfl | rfl⟩
    · exact digit?_digitChar hd
    · have hupper : ∀ d < 16, digit? d.digitChar.toUpper = some d := by decide
      exact hupper d hd

end Hex

/-! ## Numbers below 16 -/

namespace Numeral

theorem valueFrom_zeros (zeros : Nat) (cs : List Char) :
    valueFrom 16 Hex.digit? 0 (List.replicate zeros '0' ++ cs) = valueFrom 16 Hex.digit? 0 cs := by
  induction zeros with
  | zero => rfl
  | succ zeros ih => exact ih

/-- A number below 16 has no digit but zeros in front of its last one. -/
theorem of_valueFrom_lt {cs : List Char} {acc n : Nat}
    (h : valueFrom 16 Hex.digit? acc cs = some n) (hn : n < 16) :
    cs = [] ∧ acc = n ∨
      acc = 0 ∧ ∃ zeros c, cs = List.replicate zeros '0' ++ [c] ∧ Hex.digit? c = some n := by
  induction cs generalizing acc with
  | nil => exact .inl ⟨rfl, Option.some.inj h⟩
  | cons c cs ih =>
    obtain ⟨d, hd, hrest⟩ := Option.bind_eq_some_iff.1 h
    obtain ⟨rfl, hacc⟩ | ⟨hacc, zeros, last, rfl, hlast⟩ := ih hrest
    · refine .inr ⟨by omega, 0, c, rfl, ?_⟩
      rw [hd]
      exact congrArg some (by omega)
    · have hzero : c = '0' := by
        obtain ⟨-, hc⟩ := Hex.digit?_eq_some_iff.1 hd
        rw [show d = 0 by omega] at hc
        exact hc.elim id id
      exact .inr ⟨by omega, zeros + 1, last, by rw [hzero]; rfl, hlast⟩

theorem value?_eq_some_iff {cs : List Char} {n : Nat} (hn : n < 16) :
    value? 16 Hex.digit? cs = some n ↔
      ∃ zeros c, cs = List.replicate zeros '0' ++ [c] ∧ Hex.digit? c = some n := by
  constructor
  · intro h
    cases cs with
    | nil => cases h
    | cons c cs =>
      obtain ⟨hnil, -⟩ | ⟨-, hdigits⟩ := of_valueFrom_lt h hn
      · cases hnil
      · exact hdigits
  · rintro ⟨zeros, c, rfl, hc⟩
    have hvalue : valueFrom 16 Hex.digit? 0 (List.replicate zeros '0' ++ [c]) = some n := by
      rw [valueFrom_zeros, valueFrom, hc]
      exact congrArg some (Nat.zero_add n)
    cases zeros <;> exact hvalue

/-- A `+` is no digit, and so there is none to be dropped in front of digits. -/
theorem dropPlus_of_value? {cs : List Char} {n : Nat} (h : value? 16 Hex.digit? cs = some n) :
    dropPlus cs = cs := by
  unfold dropPlus
  split
  · cases h
  · rfl

/-! ## Numbers in eight bits -/

/-- The byte of a number, if a byte holds it. -/
def exactByte (n : Nat) : Option UInt8 := if n < 256 then some (UInt8.ofNat n) else none

/-- The number of a run of digits behind the digits of `acc`, where every product and every sum on
the way has to be one that a byte holds. -/
def byteFrom (base : Nat) (digit : Char → Option Nat) (acc : UInt8) : List Char → Option UInt8
  | [] => some acc
  | c :: rest => do
    let product ← exactByte (base * acc.toNat)
    let sum ← exactByte (product.toNat + (← digit c))
    byteFrom base digit sum rest

/-- The number of a run of digits, of which there must be one at least, found in eight bits. -/
def byte? (base : Nat) (digit : Char → Option Nat) : List Char → Option UInt8
  | [] => none
  | c :: rest => byteFrom base digit 0 (c :: rest)

theorem exactByte_toNat (b : UInt8) : exactByte b.toNat = some b := by
  rw [exactByte, if_pos b.toNat_lt, UInt8.ofNat_toNat]

variable {base : Nat} {digit : Char → Option Nat}

/-- No digit takes back what the ones before it have come to. -/
theorem le_of_valueFrom (hbase : 0 < base) {cs : List Char} {acc n : Nat}
    (h : valueFrom base digit acc cs = some n) : acc ≤ n := by
  induction cs generalizing acc with
  | nil => exact Nat.le_of_eq (Option.some.inj h)
  | cons c cs ih =>
    obtain ⟨d, -, hrest⟩ := Option.bind_eq_some_iff.1 h
    calc acc ≤ base * acc := Nat.le_mul_of_pos_left acc hbase
      _ ≤ base * acc + d := Nat.le_add_right _ _
      _ ≤ n := ih hrest

theorem exactByte_of_le {n : Nat} (h : 256 ≤ n) : exactByte n = none := by
  rw [exactByte, if_neg (Nat.not_lt_of_le h)]

theorem exactByte_of_lt {n : Nat} (h : n < 256) : exactByte n = some (UInt8.ofNat n) := if_pos h

/-- **Eight bits are room enough** to find a number that a byte holds, and no other one is found. -/
theorem byteFrom_eq (hbase : 0 < base) (cs : List Char) (acc : UInt8) :
    byteFrom base digit acc cs = (valueFrom base digit acc.toNat cs).bind exactByte := by
  induction cs generalizing acc with
  | nil => exact (exactByte_toNat acc).symm
  | cons c cs ih =>
    simp only [byteFrom, valueFrom, Option.bind_eq_bind]
    cases hd : digit c with
    | none => simp
    | some d =>
      simp only [Option.bind_some]
      by_cases hsum : base * acc.toNat + d < 256
      · have hproduct : base * acc.toNat < 256 := by omega
        rw [exactByte_of_lt hproduct, Option.bind_some, UInt8.toNat_ofNat_of_lt' hproduct,
          exactByte_of_lt hsum, Option.bind_some, ih, UInt8.toNat_ofNat_of_lt' hsum]
      · -- The number is past a byte by now, and what is behind it makes it no smaller.
        have hpast : (valueFrom base digit (base * acc.toNat + d) cs).bind exactByte = none := by
          cases hn : valueFrom base digit (base * acc.toNat + d) cs with
          | none => rfl
          | some n => exact exactByte_of_le (by have := le_of_valueFrom hbase hn; omega)
        rw [hpast]
        by_cases hproduct : base * acc.toNat < 256
        · rw [exactByte_of_lt hproduct, Option.bind_some, UInt8.toNat_ofNat_of_lt' hproduct,
            exactByte_of_le (Nat.le_of_not_lt hsum)]
          rfl
        · rw [exactByte_of_le (Nat.le_of_not_lt hproduct)]
          rfl

theorem byte?_eq (hbase : 0 < base) (cs : List Char) :
    byte? base digit cs = (value? base digit cs).bind exactByte := by
  cases cs with
  | nil => rfl
  | cons c cs => exact byteFrom_eq hbase (c :: cs) 0

end Numeral

/-! ## Keys -/

namespace CommandLine

theorem parseKey?_eq_some_iff_value {text : String} {key : UInt8} :
    parseKey? text = some key ↔ key.toNat < 16 ∧
      Numeral.value? 16 Hex.digit? (Numeral.dropPlus text.toList) = some key.toNat := by
  constructor
  · intro h
    obtain ⟨n, hn, hkey⟩ := Option.bind_eq_some_iff.1 h
    split at hkey
    · next hlt =>
      cases hkey
      rw [UInt8.toNat_ofNat_of_lt' (Nat.lt_trans hlt (by decide))]
      exact ⟨hlt, hn⟩
    · cases hkey
  · rintro ⟨hlt, hvalue⟩
    refine Option.bind_eq_some_iff.2 ⟨_, hvalue, ?_⟩
    rw [if_pos hlt, UInt8.ofNat_toNat]

/-- **A key is named** by a digit behind zeros and an optional `+`. -/
theorem parseKey?_eq_some_iff {text : String} {key : UInt8} :
    parseKey? text = some key ↔ key.toNat < 16 ∧ ∃ sign zeros c, (sign = [] ∨ sign = ['+']) ∧
      text.toList = sign ++ List.replicate zeros '0' ++ [c] ∧ Hex.digit? c = some key.toNat := by
  rw [parseKey?_eq_some_iff_value]
  refine and_congr_right fun hlt => ?_
  constructor
  · intro h
    obtain ⟨zeros, c, hdigits, hc⟩ := (Numeral.value?_eq_some_iff hlt).1 h
    unfold Numeral.dropPlus at hdigits
    split at hdigits
    · next rest htext =>
      refine ⟨['+'], zeros, c, .inr rfl, ?_, hc⟩
      rw [htext, hdigits]
      rfl
    · exact ⟨[], zeros, c, .inl rfl, hdigits, hc⟩
  · rintro ⟨sign, zeros, c, hsign, htext, hc⟩
    have hvalue := (Numeral.value?_eq_some_iff hlt).2 ⟨zeros, c, rfl, hc⟩
    rw [htext]
    rcases hsign with rfl | rfl
    · rw [List.nil_append, Numeral.dropPlus_of_value? hvalue]
      exact hvalue
    · exact hvalue

/-- Reading the number in eight bits makes no difference. -/
theorem parseKey?_eq_byte? (text : String) :
    parseKey? text = (Numeral.byte? 16 Hex.digit? (Numeral.dropPlus text.toList)).bind fun b =>
      if b < 16 then some b else none := by
  rw [Numeral.byte?_eq (by decide), parseKey?]
  cases Numeral.value? 16 Hex.digit? (Numeral.dropPlus text.toList) with
  | none => rfl
  | some n =>
    by_cases hn : n < 256
    · have hlt : UInt8.ofNat n < 16 ↔ n < 16 := by
        rw [UInt8.lt_iff_toNat_lt, UInt8.toNat_ofNat_of_lt' hn]
        rfl
      simp [Numeral.exactByte_of_lt hn, hlt]
    · have hkey : ¬ n < 16 := by omega
      simp [Numeral.exactByte_of_le (Nat.le_of_not_lt hn), hkey]

/-- No text with a character that is neither a digit nor a `+` names a key. -/
theorem parseKey?_eq_none_of_mem {text : String} {c : Char} (hmem : c ∈ text.toList)
    (hplus : c ≠ '+') (hdigit : Hex.digit? c = none) : parseKey? text = none := by
  rw [Option.eq_none_iff_forall_ne_some]
  intro key hkey
  obtain ⟨-, sign, zeros, last, hsign, htext, hlast⟩ := parseKey?_eq_some_iff.1 hkey
  rw [htext, List.mem_append, List.mem_append, List.mem_singleton] at hmem
  obtain (hmem | hmem) | rfl := hmem
  · obtain rfl | rfl := hsign
    · cases hmem
    · exact hplus (List.mem_singleton.1 hmem)
  · rw [List.eq_of_mem_replicate hmem] at hdigit
    cases hdigit
  · cases hdigit.symm.trans hlast

/-- A key that a text names is there to be pressed. -/
theorem press_of_parseKey? {text : String} {key : UInt8} (h : parseKey? text = some key) :
    ∃ hkey : key.toNat < 16, ∀ (m : Machine) (u : Supply),
      (Operation.press key).apply m u = ⟨.done, m.keyed ⟨key.toNat, hkey⟩ true, u⟩ := by
  have hkey := parseKey?_lt h
  refine ⟨hkey, fun m u => ?_⟩
  rw [Operation.apply, Machine.press, Machine.setKey_eq, dif_pos hkey]
  rfl

/-- **The texts that name keys**: a digit in either case behind any number of zeros and an optional
`+`, and no other text, be there room for eight bits only or for any number; the key that such a
text names can be pressed. -/
theorem key_texts_are_digits_behind_zeros (text : String) :
    (∀ key : UInt8, parseKey? text = some key ↔
      key.toNat < 16 ∧ ∃ sign zeros c, (sign = [] ∨ sign = ['+']) ∧
        text.toList = sign ++ List.replicate zeros '0' ++ [c] ∧
        (c = key.toNat.digitChar ∨ c = key.toNat.digitChar.toUpper)) ∧
    (∀ c ∈ text.toList, c ≠ '+' → Hex.digit? c = none → parseKey? text = none) ∧
    parseKey? text = ((Numeral.byte? 16 Hex.digit? (Numeral.dropPlus text.toList)).bind fun b =>
      if b < 16 then some b else none) ∧
    ∀ key : UInt8, parseKey? text = some key → ∃ hkey : key.toNat < 16,
      ∀ (m : Machine) (u : Supply),
        (Operation.press key).apply m u = ⟨.done, m.keyed ⟨key.toNat, hkey⟩ true, u⟩ := by
  refine ⟨fun key => ?_, fun c hmem hplus hdigit => parseKey?_eq_none_of_mem hmem hplus hdigit,
    parseKey?_eq_byte? text, fun key => press_of_parseKey?⟩
  rw [parseKey?_eq_some_iff]
  refine and_congr_right fun hlt => ?_
  simp only [Hex.digit?_eq_some_iff, hlt, true_and]

theorem key_texts_are_digits_behind_zeros_of_signed :
    parseKey? "+00F" = some 15 ∧ parseKey? "0x1" = none ∧
      ∃ hkey : (15 : UInt8).toNat < 16, ∀ (m : Machine) (u : Supply),
        (Operation.press 15).apply m u = ⟨.done, m.keyed ⟨(15 : UInt8).toNat, hkey⟩ true, u⟩ := by
  have hnamed : parseKey? "+00F" = some 15 :=
    ((key_texts_are_digits_behind_zeros "+00F").1 15).2
      ⟨by decide, ['+'], 2, 'F', .inr rfl, by decide, .inr (by decide)⟩
  have hrejected : parseKey? "0x1" = none :=
    (key_texts_are_digits_behind_zeros "0x1").2.1 'x' (by decide) (by decide) (by decide)
  exact ⟨hnamed, hrejected, (key_texts_are_digits_behind_zeros "+00F").2.2.2 15 hnamed⟩

example : ["", "+", "-0", "++1", "10", "ff", "1 ", "1_", "é", "10000000000000001"].map parseKey? =
    List.replicate 10 none := by
  decide

end CommandLine

end Chip8VM
