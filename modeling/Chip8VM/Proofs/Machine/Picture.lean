import Mathlib.Data.Finset.Card
import Mathlib.Data.Finset.Prod
import Mathlib.Data.Fintype.Basic
import Chip8VM.Proofs.Instruction.Drawing
import Chip8VM.Proofs.Machine.Bounds

/-!
# A draw is an exclusive or

`State.spriteCells` is the set of cells that the sprite of a draw falls on. A draw changes each of
them over once, so that the screen becomes the exclusive or of what it was and that set
(`State.isLit_drawn`), and how many pixels are lit afterwards can be told from how many of the cells
were lit (`Frame.lit_add_of_xor`). The set has as many cells as the bytes of the sprite have set
bits (`State.card_spriteCells`), as no two of them fall on the same cell.
-/

set_option autoImplicit false

namespace Chip8VM

/-! ## Lit cells -/

namespace Frame

/-- The lit cells. -/
def litCells (f : Frame) : Finset Cell := Finset.univ.filter fun c => f.isLit c = true

theorem mem_litCells {f : Frame} {c : Cell} : c ∈ f.litCells ↔ f.isLit c = true := by
  rw [litCells, Finset.mem_filter, and_iff_right (Finset.mem_univ c)]

theorem card_litCells (f : Frame) : f.litCells.card = f.lit := by
  have hcells : f.cells.toList = (List.finRange 2048).map f.isLit := by
    apply List.ext_getElem
    · simp
    · intro i hi _
      simp [isLit]
  have hcard : f.litCells.card = ((List.finRange 2048).filter fun c => f.isLit c = true).length :=
    rfl
  rw [hcard, lit, hcells, List.count, List.countP_map, List.countP_eq_length_filter]
  congr 1

/-- Changing the cells of a set over lights those that were unlit and puts those out that were
lit. -/
theorem lit_add_of_xor {f g : Frame} {cells : Finset Cell}
    (h : ∀ c, g.isLit c = (f.isLit c ^^ decide (c ∈ cells))) :
    g.lit + 2 * (cells.filter fun c => f.isLit c = true).card = f.lit + cells.card := by
  have hg : g.litCells = f.litCells \ cells ∪ cells \ f.litCells := by
    ext c
    simp only [Finset.mem_union, Finset.mem_sdiff, mem_litCells, h]
    by_cases hc : c ∈ cells <;> simp [hc]
  have hinter : cells.filter (fun c => f.isLit c = true) = f.litCells ∩ cells := by
    ext c
    rw [Finset.mem_filter, Finset.mem_inter, mem_litCells, and_comm]
  have hlit := Finset.card_sdiff_add_card_inter f.litCells cells
  have hcells := Finset.card_sdiff_add_card_inter cells f.litCells
  have hdisjoint : Disjoint (f.litCells \ cells) (cells \ f.litCells) := disjoint_sdiff_sdiff
  have hunion := Finset.card_union_of_disjoint hdisjoint
  rw [← hg, card_litCells] at hunion
  rw [card_litCells] at hlit
  rw [Finset.inter_comm] at hcells
  rw [hinter]
  omega

end Frame

/-! ## The cells of a draw -/

/-- How many bits of the rows of a sprite are set. -/
def Sprite.setBits : List UInt8 → Nat
  | [] => 0
  | bits :: rest => (List.range 8).countP bits.toNat.testBit + setBits rest

/-- The columns of a row are its set bits, counted from the other end. -/
theorem Sprite.length_columns (bits : UInt8) :
    (columns bits).length = (List.range 8).countP bits.toNat.testBit := by
  have hreverse : (List.range 8).map (7 - ·) = (List.range 8).reverse := by decide
  rw [← List.countP_reverse, ← hreverse, List.countP_map, columns, List.countP_eq_length_filter]
  rfl

/-- A sprite has a cell for each of its set bits. -/
theorem Sprite.length_cells (wrap : Wrap) (x y : Nat) (rows : List UInt8) :
    (cells wrap x y rows).length = setBits rows := by
  -- over the rows, the first of them having any number
  have hpixels : ∀ (rows : List UInt8) (first : Nat),
      ((rows.zipIdx first).flatMap fun row =>
        (columns row.1).map fun col => (col, row.2)).length = setBits rows := by
    intro rows
    induction rows with
    | nil => intro first; rfl
    | cons bits rest ih =>
      intro first
      rw [List.zipIdx_cons, List.flatMap_cons, List.length_append, List.length_map, length_columns,
        ih, setBits]
  rw [cells, List.length_map]
  exact hpixels rows 0

namespace State

variable (wrap : Wrap) (s : State) (x y : Register) (rows : Fin 16)

/-- A row of the sprite at `I`, zero past the end of memory. -/
def spriteRow (row : Nat) : UInt8 := (s.memory.bytes[s.index.toNat + row]?).getD 0

/-- The set bits of the sprite at `I`, each as its row and its column. -/
def spriteBits : Finset (Nat × Nat) :=
  (Finset.range rows.val ×ˢ Finset.range 8).filter fun bit =>
    (s.spriteRow bit.1).toNat.testBit (7 - bit.2) = true

/-- The cell that a bit of the sprite falls on, the corner being in column `VX` of row `VY`. -/
def spriteCell (bit : Nat × Nat) : Cell :=
  wrap.cell ((s.v.get x).toNat + bit.2) ((s.v.get y).toNat + bit.1)

/-- The cells that the sprite of a draw falls on. -/
def spriteCells : Finset Cell := (s.spriteBits rows).image (s.spriteCell wrap x y)

/-! ## What it covers -/

theorem toList_peek_sprite :
    (s.memory.peek s.index.toNat rows.val).toList = (List.range rows.val).map s.spriteRow := by
  apply List.ext_getElem
  · simp
  · intro row _ _
    simp [Memory.peek, spriteRow]

theorem mem_spriteBits {row col : Nat} :
    (row, col) ∈ s.spriteBits rows ↔
      row < rows.val ∧ col < 8 ∧ (s.spriteRow row).toNat.testBit (7 - col) = true := by
  simp only [spriteBits, Finset.mem_filter, Finset.mem_product, Finset.mem_range, and_assoc]

/-- The bits of a sprite depend on nothing but its rows. -/
theorem spriteBits_congr {t : State} (h : ∀ row < rows.val, t.spriteRow row = s.spriteRow row) :
    t.spriteBits rows = s.spriteBits rows := by
  ext ⟨row, col⟩
  rw [mem_spriteBits, mem_spriteBits]
  refine and_congr_right fun hrow => ?_
  rw [h row hrow]

theorem mem_spriteCells {c : Cell} :
    c ∈ s.spriteCells wrap x y rows ↔
      c ∈ Sprite.cells wrap (s.v.get x).toNat (s.v.get y).toNat
        (s.memory.peek s.index.toNat rows.val).toList := by
  rw [Sprite.mem_cells, toList_peek_sprite, spriteCells, Finset.mem_image, Prod.exists]
  simp only [mem_spriteBits, Sprite.Covers, List.length_map, List.length_range, List.getElem_map,
    List.getElem_range, spriteCell]
  constructor
  · rintro ⟨row, col, ⟨hrow, hcol, hbit⟩, hc⟩
    exact ⟨row, col, hrow, hcol, hbit, hc⟩
  · rintro ⟨row, col, hrow, hcol, hbit, hc⟩
    exact ⟨row, col, ⟨hrow, hcol, hbit⟩, hc⟩

/-- No two bits of the sprite fall on the same cell. -/
theorem injOn_spriteCell :
    Set.InjOn (s.spriteCell wrap x y) (s.spriteBits rows : Set (Nat × Nat)) := by
  rintro ⟨row, col⟩ hbit ⟨row', col'⟩ hbit' heq
  obtain ⟨hrow, hcol, -⟩ := (mem_spriteBits s rows).1 hbit
  obtain ⟨hrow', hcol', -⟩ := (mem_spriteBits s rows).1 hbit'
  obtain ⟨hcols, hrows⟩ := Sprite.eq_of_cell_eq hcol hcol' (by omega) (by omega) heq
  exact Prod.ext hrows hcols

theorem length_sprite_le : (s.memory.peek s.index.toNat rows.val).toList.length ≤ 32 := by
  rw [Vector.length_toList]
  omega

theorem card_spriteCells :
    (s.spriteCells wrap x y rows).card =
      Sprite.setBits ((List.range rows.val).map s.spriteRow) := by
  have hset : s.spriteCells wrap x y rows =
      (Sprite.cells wrap (s.v.get x).toNat (s.v.get y).toNat
        (s.memory.peek s.index.toNat rows.val).toList).toFinset := by
    ext c
    rw [List.mem_toFinset]
    exact mem_spriteCells wrap s x y rows
  have hnodup := Sprite.nodup_cells wrap (s.v.get x).toNat (s.v.get y).toNat
    (s.length_sprite_le rows)
  rw [hset, List.toFinset_card_of_nodup hnodup, Sprite.length_cells, toList_peek_sprite]

theorem isLit_drawn (c : Cell) :
    (Instruction.drawn wrap s (s.v.get x) (s.v.get y) rows.val).frame.isLit c =
      (s.frame.isLit c ^^ decide (c ∈ s.spriteCells wrap x y rows)) := by
  have hnodup := Sprite.nodup_cells wrap (s.v.get x).toNat (s.v.get y).toNat
    (s.length_sprite_le rows)
  refine (Frame.isLit_toggleAll_of_nodup hnodup c).trans ?_
  rw [decide_eq_decide.2 (mem_spriteCells wrap s x y rows).symm]

/-- A draw changes the cells of its sprite over, and no others. -/
theorem isLit_drawn_ne_iff (c : Cell) :
    (Instruction.drawn wrap s (s.v.get x) (s.v.get y) rows.val).frame.isLit c ≠
        s.frame.isLit c ↔ c ∈ s.spriteCells wrap x y rows := by
  rw [isLit_drawn, Frame.xor_ne_iff, decide_eq_true_iff]

theorem flag_drawn :
    (Instruction.drawn wrap s (s.v.get x) (s.v.get y) rows.val).v.get flagRegister =
      (decide (∃ bit ∈ s.spriteBits rows,
        s.frame.isLit (s.spriteCell wrap x y bit) = true)).toUInt8 := by
  have hnodup := Sprite.nodup_cells wrap (s.v.get x).toNat (s.v.get y).toNat
    (s.length_sprite_le rows)
  have hhit := Frame.hit_toggleAll_iff (f := s.frame) hnodup
  simp only [← mem_spriteCells wrap s x y rows, spriteCells, Finset.exists_mem_image] at hhit
  rw [Instruction.drawn, get_setV, if_pos rfl, ← Bool.decide_congr hhit, Bool.decide_eq_true]

end State

theorem Instruction.decode?_draw {w : Word} (h : w.nibble 3 = 0xD) :
    decode? w = some (.draw w.x w.y w.n) := by
  simp only [decode?, h]
  rfl

/-- **A draw is an exclusive or.** Every reachable state has its counter far enough below the end of
its 16 bits. From every state that has, a word `DXYN` whose sprite is in memory completes, for
either way to wrap. It changes exactly the cells over that the set bits of the sprite fall on, all
read from the state before it. No two bits fall on the same cell, so there are as many cells as set
bits, and the number of lit pixels grows by the cells that were unlit and falls by those that were
lit. `VF` is 1 if a lit cell went off and 0 if none did, the screen is marked, the counter goes on
by two, and the other registers and all else stay. -/
theorem draw_is_exclusive_or :
    (∀ m, Reachable m → m.state.pc.toNat ≤ 0xFFFD) ∧
    ∀ (w : Word) (s : State) (wrap : Wrap) (byte : UInt8),
      w.nibble 3 = 0xD → s.pc.toNat ≤ 0xFFFD → s.index.toNat + w.n.val ≤ 4096 →
      let cells := s.spriteCells wrap w.x w.y w.n
      Instruction.decode? w = some (.draw w.x w.y w.n) ∧
      ∃ (frame : Frame) (hit : Bool),
        (Instruction.draw w.x w.y w.n).execute wrap byte s =
          .ok { s.setV flagRegister hit.toUInt8 with frame, drawn := true, pc := s.pc + 2 } ∧
        (∀ t, (Instruction.draw w.x w.y w.n).execute wrap byte s = .ok t →
          t.v.get flagRegister = (if hit then 1 else 0) ∧
          (∀ r, r ≠ flagRegister → t.v.get r = s.v.get r) ∧
          t.pc = s.pc + 2 ∧ t.frame = frame ∧ t.drawn = true) ∧
        (∀ c, frame.isLit c = (s.frame.isLit c ^^ decide (c ∈ cells))) ∧
        Set.InjOn (s.spriteCell wrap w.x w.y) (s.spriteBits w.n : Set (Nat × Nat)) ∧
        cells.card = Sprite.setBits ((List.range w.n.val).map s.spriteRow) ∧
        (hit = true ↔ ∃ c, s.frame.isLit c = true ∧ frame.isLit c = false) ∧
        frame.lit + 2 * (cells.filter fun c => s.frame.isLit c = true).card =
          s.frame.lit + cells.card := by
  refine ⟨fun m hm => Nat.le_trans hm.bounded.pc (by decide), ?_⟩
  intro w s wrap byte hw hpc hfits cells
  have hxor := s.isLit_drawn wrap w.x w.y w.n
  obtain ⟨-, hhit⟩ := Sprite.toggleAll_cells s.frame wrap (s.v.get w.x).toNat (s.v.get w.y).toNat
    (s.length_sprite_le w.n)
  have hok := State.execute_draw hpc hfits wrap byte w.x w.y
  refine ⟨Instruction.decode?_draw hw, _, _, hok, fun t ht => ?_, hxor,
    s.injOn_spriteCell wrap w.x w.y w.n, s.card_spriteCells wrap w.x w.y w.n, hhit,
    Frame.lit_add_of_xor hxor⟩
  cases hok.symm.trans ht
  obtain ⟨hflag, hothers⟩ := s.registers_setV flagRegister _
  exact ⟨hflag, hothers, rfl, rfl, rfl⟩

/-- A program that draws a row of four pixels in column and row 60 and then puts 60 into `VF`. -/
def Machine.underlined : Machine :=
  (Operation.run (.new .flat) (.ofSeed 1)
    [.load [0x61, 0x3C, 0xD1, 0x11, 0x6F, 0x3C], .step, .step, .step]).machine

/-- The glyph of `0`, drawn where `VF` says, puts the pixel in its corner out. -/
theorem draw_is_exclusive_or_where_flag_says :
    let s := Machine.underlined.state
    (Reachable .underlined ∧ Word.nibble 0xDFF5 3 = 0xD ∧
        s.index.toNat + (Word.n 0xDFF5).val ≤ 4096) ∧
      ∃ (frame : Frame) (t : State), (Instruction.draw 0xF 0xF 5).execute .flat 0 s = .ok t ∧
        t = { s.setV flagRegister 1 with frame, drawn := true, pc := s.pc + 2 } ∧
        t.v.get flagRegister = 1 ∧ s.frame.isLit 1852 = true ∧ t.frame.isLit 1852 = false := by
  intro s
  have hm : Reachable .underlined := (Reachable.new .flat).run _ _
  have hw : Word.nibble 0xDFF5 3 = 0xD := by decide
  have hbefore : s.index.toNat + (Word.n 0xDFF5).val ≤ 4096 ∧ s.frame.isLit 1852 = true ∧
      1852 ∈ s.spriteCells .flat (Word.x 0xDFF5) (Word.y 0xDFF5) (Word.n 0xDFF5) := by
    decide +kernel
  obtain ⟨hfits, hon, hcell⟩ := hbefore
  obtain ⟨hpc, hdraw⟩ := draw_is_exclusive_or
  obtain ⟨-, frame, hit, hok, hreads, hxor, -, -, hhit, -⟩ :=
    hdraw 0xDFF5 s .flat 0 hw (hpc _ hm) hfits
  have hoff : frame.isLit 1852 = false := by
    rw [hxor, hon, decide_eq_true hcell]
    rfl
  have htrue : hit = true := hhit.2 ⟨1852, hon, hoff⟩
  subst htrue
  exact ⟨⟨hm, hw, hfits⟩, frame, _, hok, rfl, (hreads _ hok).1, hon, hoff⟩

end Chip8VM
