import Chip8VM.Instruction.Encoding

/-!
# The patterns of instructions

The 34 kinds of instructions as patterns of four nibbles, written without `decode?` or `encode`. A
word is the word of an instruction exactly if it matches one of them (`exists_encode_iff_matches`).
-/

set_option autoImplicit false

namespace Chip8VM

/-- Four nibbles, most significant first; `none` stands for any nibble. -/
abbrev Pattern := List (Option (Fin 16))

/-- Whether the nibbles of a word are those of a pattern. -/
def Word.Matches (w : Word) (p : Pattern) : Prop :=
  ∀ place ∈ w.nibbles.zip p, ∀ digit ∈ place.2, place.1 = digit

instance (w : Word) (p : Pattern) : Decidable (w.Matches p) :=
  inferInstanceAs (Decidable (∀ place ∈ w.nibbles.zip p, ∀ digit ∈ place.2, place.1 = digit))

/-! ## Reading nibbles -/

namespace Word

theorem matches_iff (w : Word) (a b c d : Option (Fin 16)) :
    w.Matches [a, b, c, d] ↔ (∀ k ∈ a, w.nibble 3 = k) ∧ (∀ k ∈ b, w.x = k) ∧
      (∀ k ∈ c, w.y = k) ∧ ∀ k ∈ d, w.n = k := by
  simp [Matches, nibbles, x, y, n]

theorem y_ofByte (a x : Fin 16) (b : UInt8) :
    (ofByte a x b).y = ⟨b.toNat / 16, by have := b.toNat_lt; omega⟩ := by
  have := b.toNat_lt
  apply Fin.ext
  simp only [y, val_nibble, toNat_ofByte]
  omega

theorem n_ofByte (a x : Fin 16) (b : UInt8) :
    (ofByte a x b).n = ⟨b.toNat % 16, Nat.mod_lt _ (by decide)⟩ := by
  apply Fin.ext
  simp only [n, val_nibble, toNat_ofByte]
  omega

theorem toNat_low (w : Word) : w.low.toNat = 16 * w.y.val + w.n.val := by
  simp only [low, y, n, val_nibble, UInt8.toNat_ofNat']
  omega

theorem eq_of_nibbles {w v : Word} (h3 : w.nibble 3 = v.nibble 3) (hx : w.x = v.x)
    (hy : w.y = v.y) (hn : w.n = v.n) : w = v := by
  have hw := w.toNat_lt
  have hv := v.toNat_lt
  simp only [x, y, n, Fin.ext_iff, val_nibble] at h3 hx hy hn
  apply UInt16.toNat_inj.1
  omega

end Word

namespace Instruction

/-- The pattern of an instruction. -/
def pattern : Instruction → Pattern
  | .clear => [some 0x0, some 0x0, some 0xE, some 0x0]
  | .ret => [some 0x0, some 0x0, some 0xE, some 0xE]
  | .jump _ => [some 0x1, none, none, none]
  | .call _ => [some 0x2, none, none, none]
  | .skipEqByte _ _ => [some 0x3, none, none, none]
  | .skipNeByte _ _ => [some 0x4, none, none, none]
  | .skipEq _ _ => [some 0x5, none, none, some 0x0]
  | .setByte _ _ => [some 0x6, none, none, none]
  | .addByte _ _ => [some 0x7, none, none, none]
  | .copy _ _ => [some 0x8, none, none, some 0x0]
  | .or _ _ => [some 0x8, none, none, some 0x1]
  | .and _ _ => [some 0x8, none, none, some 0x2]
  | .xor _ _ => [some 0x8, none, none, some 0x3]
  | .add _ _ => [some 0x8, none, none, some 0x4]
  | .sub _ _ => [some 0x8, none, none, some 0x5]
  | .shiftRight _ _ => [some 0x8, none, none, some 0x6]
  | .subFrom _ _ => [some 0x8, none, none, some 0x7]
  | .shiftLeft _ _ => [some 0x8, none, none, some 0xE]
  | .skipNe _ _ => [some 0x9, none, none, some 0x0]
  | .setIndex _ => [some 0xA, none, none, none]
  | .jumpPlus _ => [some 0xB, none, none, none]
  | .random _ _ => [some 0xC, none, none, none]
  | .draw _ _ _ => [some 0xD, none, none, none]
  | .skipDown _ => [some 0xE, none, some 0x9, some 0xE]
  | .skipUp _ => [some 0xE, none, some 0xA, some 0x1]
  | .readDelay _ => [some 0xF, none, some 0x0, some 0x7]
  | .awaitKey _ => [some 0xF, none, some 0x0, some 0xA]
  | .setDelay _ => [some 0xF, none, some 0x1, some 0x5]
  | .setSound _ => [some 0xF, none, some 0x1, some 0x8]
  | .addIndex _ => [some 0xF, none, some 0x1, some 0xE]
  | .glyph _ => [some 0xF, none, some 0x2, some 0x9]
  | .decimal _ => [some 0xF, none, some 0x3, some 0x3]
  | .store _ => [some 0xF, none, some 0x5, some 0x5]
  | .load _ => [some 0xF, none, some 0x6, some 0x5]

/-- The word of an instruction matches its pattern. -/
theorem matches_encode (i : Instruction) : i.encode.Matches i.pattern := by
  cases i with
  | clear => decide +kernel
  | ret => decide +kernel
  | _ =>
    simp only [Word.matches_iff, pattern, encode, Option.mem_def, Option.some.injEq, reduceCtorEq,
      false_implies, implies_true, true_and, and_true, forall_eq',
      Word.nibble_three_ofNibbles, Word.nibble_three_ofAddress, Word.nibble_three_ofByte,
      Word.y_ofByte, Word.n_ofByte, Word.n_ofNibbles] <;> decide

/-- A word that matches the pattern of some instruction is an instruction. -/
theorem isSome_decode?_of_matches {w : Word} {i : Instruction} (h : w.Matches i.pattern) :
    (decode? w).isSome := by
  cases i <;> simp only [Word.matches_iff, pattern, Option.mem_def, Option.some.injEq, reduceCtorEq,
    false_implies, implies_true, true_and, and_true, forall_eq'] at h
  case clear =>
    have hw : w = encode .clear := Word.eq_of_nibbles h.1 h.2.1 h.2.2.1 h.2.2.2
    rw [hw, decode?_encode]
    rfl
  case ret =>
    have hw : w = encode .ret := Word.eq_of_nibbles h.1 h.2.1 h.2.2.1 h.2.2.2
    rw [hw, decode?_encode]
    rfl
  all_goals
    simp only [decode?, h, Word.toNat_low]
    rfl

/-- **The words of instructions are those that match a pattern.** -/
theorem exists_encode_iff_matches {w : Word} :
    (∃ i : Instruction, w = i.encode) ↔ ∃ i : Instruction, w.Matches i.pattern := by
  constructor
  · rintro ⟨i, rfl⟩
    exact ⟨i, i.matches_encode⟩
  · rintro ⟨i, h⟩
    obtain ⟨j, hj⟩ := Option.isSome_iff_exists.1 (isSome_decode?_of_matches h)
    exact ⟨j, (encode_of_decode? hj).symm⟩

end Instruction

end Chip8VM
