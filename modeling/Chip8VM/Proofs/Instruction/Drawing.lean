import Mathlib.Data.List.Nodup
import Chip8VM.Proofs.Instruction.Effect

/-!
# What a draw does to the screen

Toggling cells one after another changes each of them over as often as it is listed
(`Frame.isLit_toggleAll`). The cells of a sprite are the ones that its set bits fall on
(`Sprite.mem_cells`), and no two bits fall on the same one (`Sprite.nodup_cells`): a sprite is at
most eight columns wide and fifteen rows high, which fits on the screen in either way to wrap. So a
draw changes exactly those cells over, and the collision it reports is a lit cell that is unlit
afterwards (`Sprite.toggleAll_cells`).
-/

set_option autoImplicit false

namespace Chip8VM

/-! ## Toggling -/

namespace Frame

theorem toggleAll_cons (f : Frame) (c : Cell) (cells : List Cell) :
    f.toggleAll (c :: cells) =
      (f.isLit c || ((f.flip c).toggleAll cells).1, ((f.flip c).toggleAll cells).2) := by
  have hfold : ∀ (cells : List Cell) (hit : Bool) (f : Frame),
      cells.foldl (fun s c => (s.1 || (s.2.toggle c).1, (s.2.toggle c).2)) (hit, f) =
        (hit || (f.toggleAll cells).1, (f.toggleAll cells).2) := by
    intro cells
    induction cells with
    | nil => intro hit f; simp [toggleAll]
    | cons c cells ih =>
      intro hit f
      have hfirst : f.toggleAll (c :: cells) = _ := ih (false || f.isLit c) (f.flip c)
      rw [hfirst, Bool.false_or, ← Bool.or_assoc]
      exact ih (hit || f.isLit c) (f.flip c)
  exact hfold cells (false || f.isLit c) (f.flip c)

/-- A pixel is another one exactly where it was changed over. -/
theorem xor_ne_iff (lit on : Bool) : (lit ^^ on) ≠ lit ↔ on = true := by
  revert lit on
  decide

theorem isLit_toggleAll (f : Frame) (cells : List Cell) (c : Cell) :
    (f.toggleAll cells).2.isLit c = (f.isLit c ^^ decide (cells.count c % 2 = 1)) := by
  induction cells generalizing f with
  | nil => simp [toggleAll]
  | cons d cells ih =>
    rw [toggleAll_cons, ih, isLit_flip]
    by_cases hd : d = c
    · subst hd
      rcases Nat.mod_two_eq_zero_or_one (cells.count d) with h | h <;>
        simp [Nat.add_mod, h]
    · simp [hd]

section

variable {f : Frame} {cells : List Cell} (h : cells.Nodup)
include h

/-- Cells that are toggled once each are changed over, and the others stay. -/
theorem isLit_toggleAll_of_nodup (c : Cell) [Decidable (c ∈ cells)] :
    (f.toggleAll cells).2.isLit c = (f.isLit c ^^ decide (c ∈ cells)) := by
  rw [isLit_toggleAll, List.Nodup.count h]
  by_cases hc : c ∈ cells <;> simp [hc]

theorem isLit_toggleAll_ne_iff (c : Cell) :
    (f.toggleAll cells).2.isLit c ≠ f.isLit c ↔ c ∈ cells := by
  rw [isLit_toggleAll_of_nodup h]
  by_cases hc : c ∈ cells <;> simp [hc]

theorem hit_toggleAll_iff : (f.toggleAll cells).1 = true ↔ ∃ c ∈ cells, f.isLit c = true := by
  induction cells generalizing f with
  | nil => simp [toggleAll]
  | cons d cells ih =>
    obtain ⟨hd, hcells⟩ := List.nodup_cons.1 h
    -- The cells behind the first one are not it, so they are lit as they were.
    have hsame : ∀ c ∈ cells, (f.flip d).isLit c = f.isLit c := by
      intro c hc
      rw [isLit_flip, if_neg]
      rintro rfl
      exact hd hc
    rw [toggleAll_cons, Bool.or_eq_true, ih hcells, List.exists_mem_cons_iff]
    refine or_congr_right (exists_congr fun c => and_congr_right fun hc => ?_)
    rw [hsame c hc]

end

end Frame

/-! ## The cells of a sprite -/

namespace Sprite

/-- A sprite with its corner in column `x` of row `y` has a set bit on the cell. -/
def Covers (wrap : Wrap) (x y : Nat) (rows : List UInt8) (c : Cell) : Prop :=
  ∃ row col, ∃ h : row < rows.length,
    col < 8 ∧ rows[row].toNat.testBit (7 - col) = true ∧ wrap.cell (x + col) (y + row) = c

theorem mem_columns {bits : UInt8} {col : Nat} :
    col ∈ columns bits ↔ col < 8 ∧ bits.toNat.testBit (7 - col) = true := by
  simp [columns]

theorem mem_pixels {rows : List UInt8} {col row : Nat} :
    (col, row) ∈ pixels rows ↔
      ∃ h : row < rows.length, col < 8 ∧ rows[row].toNat.testBit (7 - col) = true := by
  simp only [pixels, List.mem_flatMap, Prod.exists, List.mem_map, mem_columns,
    List.mem_zipIdx_iff_getElem?, Prod.mk.injEq]
  constructor
  · rintro ⟨bits, row', hrow, col', hcol, rfl, rfl⟩
    obtain ⟨hlt, rfl⟩ := List.getElem?_eq_some_iff.1 hrow
    exact ⟨hlt, hcol⟩
  · rintro ⟨hlt, hcol⟩
    exact ⟨rows[row], row, List.getElem?_eq_getElem hlt, col, hcol, rfl, rfl⟩

theorem mem_cells {wrap : Wrap} {x y : Nat} {rows : List UInt8} {c : Cell} :
    c ∈ cells wrap x y rows ↔ Covers wrap x y rows c := by
  simp only [cells, List.mem_map, Prod.exists, mem_pixels, Covers]
  constructor
  · rintro ⟨col, row, ⟨hlt, hcol, hbit⟩, rfl⟩
    exact ⟨row, col, hlt, hcol, hbit, rfl⟩
  · rintro ⟨row, col, hlt, hcol, hbit, rfl⟩
    exact ⟨col, row, ⟨hlt, hcol, hbit⟩, rfl⟩

theorem nodup_pixels (rows : List UInt8) : (pixels rows).Nodup := by
  rw [pixels, List.nodup_flatMap]
  constructor
  · rintro ⟨bits, row⟩ -
    refine List.Nodup.map (fun col col' h => (Prod.mk.inj h).1) ?_
    exact List.Nodup.filter _ List.nodup_range
  · -- Pixels of two rows differ in their row.
    have hrows : (rows.zipIdx.map Prod.snd).Nodup := by
      rw [List.zipIdx_map_snd]
      exact List.nodup_range'
    rw [List.Nodup, List.pairwise_map] at hrows
    refine hrows.imp ?_
    rintro ⟨bits, row⟩ ⟨bits', row'⟩ hne
    refine List.disjoint_left.2 fun p hp hp' => hne ?_
    obtain ⟨col, -, rfl⟩ := List.mem_map.1 hp
    obtain ⟨col', -, heq⟩ := List.mem_map.1 hp'
    exact (Prod.mk.inj heq).2.symm

/-- Eight columns and thirty-two rows from a corner on, no two places are on the same cell. -/
theorem eq_of_cell_eq {wrap : Wrap} {x y col col' row row' : Nat} (hcol : col < 8)
    (hcol' : col' < 8) (hrow : row < 32) (hrow' : row' < 32)
    (h : wrap.cell (x + col) (y + row) = wrap.cell (x + col') (y + row')) :
    col = col' ∧ row = row' := by
  have hindex : wrap.index (x + col) (y + row) = wrap.index (x + col') (y + row') :=
    congrArg Fin.val h
  cases wrap <;> simp only [Wrap.index] at hindex <;> omega

/-- **No two bits of a sprite fall on the same cell.** -/
theorem nodup_cells (wrap : Wrap) (x y : Nat) {rows : List UInt8} (h : rows.length ≤ 32) :
    (cells wrap x y rows).Nodup := by
  refine List.Nodup.map_on ?_ (nodup_pixels rows)
  rintro ⟨col, row⟩ hp ⟨col', row'⟩ hp' heq
  obtain ⟨hrow, hcol, -⟩ := mem_pixels.1 hp
  obtain ⟨hrow', hcol', -⟩ := mem_pixels.1 hp'
  rw [Prod.mk.injEq]
  exact eq_of_cell_eq hcol hcol' (by omega) (by omega) heq

/-- **Drawing a sprite** changes the cells over that it covers, and reports whether that turned a
lit one off. -/
theorem toggleAll_cells (f : Frame) (wrap : Wrap) (x y : Nat) {rows : List UInt8}
    (h : rows.length ≤ 32) :
    (∀ c, (f.toggleAll (cells wrap x y rows)).2.isLit c ≠ f.isLit c ↔ Covers wrap x y rows c) ∧
      ((f.toggleAll (cells wrap x y rows)).1 = true ↔
        ∃ c, f.isLit c = true ∧ (f.toggleAll (cells wrap x y rows)).2.isLit c = false) := by
  have hnodup := nodup_cells wrap x y h
  have hcovers : ∀ c, (f.toggleAll (cells wrap x y rows)).2.isLit c ≠ f.isLit c ↔
      c ∈ cells wrap x y rows := Frame.isLit_toggleAll_ne_iff hnodup
  refine ⟨fun c => (hcovers c).trans mem_cells, ?_⟩
  rw [Frame.hit_toggleAll_iff hnodup]
  refine exists_congr fun c => ?_
  rw [← hcovers c]
  constructor
  · rintro ⟨hne, hlit⟩
    rw [hlit, ne_eq, Bool.not_eq_true] at hne
    exact ⟨hlit, hne⟩
  · rintro ⟨hlit, hoff⟩
    rw [hlit, hoff]
    exact ⟨Bool.noConfusion, rfl⟩

end Sprite

/-! ## A draw -/

/-- A draw completes where the bytes of its sprite are in memory. -/
theorem State.execute_draw {s : State} (hpc : s.pc.toNat ≤ 0xFFFD) {rows : Fin 16}
    (hindex : s.index.toNat + rows.val ≤ 4096) (wrap : Wrap) (byte : UInt8) (x y : Register) :
    (Instruction.draw x y rows).execute wrap byte s =
      .ok { Instruction.drawn wrap s (s.v.get x) (s.v.get y) rows.val with pc := s.pc + 2 } := by
  refine Instruction.execute_of_goesOn (i := .draw x y rows) hpc ?_ rfl wrap byte
  rw [Instruction.obstacle, Instruction.rangeObstacle, if_neg (Nat.not_lt_of_le hindex)]

end Chip8VM
