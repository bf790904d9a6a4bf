import Mathlib.Data.Finite.Defs
import Mathlib.Data.Fintype.EquivFin
import Chip8VM.Proofs.Machine.Picture

/-!
# Moving a sprite

The screen can be rotated: in columns and rows if they wrap on their own, and as one run of cells if
that is what wraps (`Wrap.shift`). Where the corner of a sprite is so many columns and rows on, the
cells that it falls on are the rotated ones (`State.Moved.mem_spriteCells`), though the coordinates
are bytes and wrap around at 256: that is a whole number of screens, down in both ways to wrap and
across if the columns wrap on their own. So a draw on a rotated screen leaves the rotated picture
and reports the same collision.
-/

set_option autoImplicit false

namespace Chip8VM

/-! ## Rotations of the screen -/

namespace Wrap

/-- The cell that is `dx` columns and `dy` rows on from a cell. -/
def shift : Wrap → Nat → Nat → Cell → Cell
  | .flat, dx, dy, c => ⟨(c.val + dx + 64 * dy) % 2048, Nat.mod_lt _ (by decide)⟩
  | .toroidal, dx, dy, c => ⟨(c.val % 64 + dx) % 64 + 64 * ((c.val / 64 + dy) % 32), by omega⟩

theorem shift_cell (wrap : Wrap) (dx dy x y : Nat) :
    wrap.shift dx dy (wrap.cell x y) = wrap.cell (x + dx) (y + dy) := by
  cases wrap with
  | flat =>
    apply Fin.ext
    simp only [shift, cell, index]
    omega
  | toroidal =>
    apply Fin.ext
    simp only [shift, cell, index]
    omega

theorem shift_bijective (wrap : Wrap) (dx dy : Nat) : Function.Bijective (wrap.shift dx dy) := by
  rw [← Finite.injective_iff_bijective]
  intro c c' h
  have hval : (wrap.shift dx dy c).val = (wrap.shift dx dy c').val := congrArg Fin.val h
  apply Fin.ext
  cases wrap with
  | flat =>
    simp only [shift] at hval
    omega
  | toroidal =>
    simp only [shift] at hval
    omega

/-- Coordinates that wrap around the end of a byte are on the same cell as if they did not. -/
theorem cell_add (wrap : Wrap) (x y dx dy : UInt8) (col row : Nat)
    (hedge : wrap = .flat → x.toNat + dx.toNat ≤ 255) :
    wrap.cell ((x + dx).toNat + col) ((y + dy).toNat + row) =
      wrap.shift dx.toNat dy.toNat (wrap.cell (x.toNat + col) (y.toNat + row)) := by
  rw [shift_cell]
  apply Fin.ext
  cases wrap with
  | flat =>
    have hx := hedge rfl
    simp only [cell, index, UInt8.toNat_add]
    omega
  | toroidal =>
    simp only [cell, index, UInt8.toNat_add]
    omega

/-- Where one run of cells wraps, a corner that goes around the end of a byte jumps four rows up. -/
example : Wrap.flat.cell ((250 + 10 : UInt8).toNat + 0) 20 =
    Wrap.flat.shift 10 252 (Wrap.flat.cell 250 20) := by decide

end Wrap

/-- The second frame is the first one, rotated by `dx` columns and `dy` rows. -/
def Frame.Rotated (wrap : Wrap) (dx dy : Nat) (f g : Frame) : Prop :=
  ∀ c, g.isLit (wrap.shift dx dy c) = f.isLit c

/-! ## A sprite in two places -/

/-- A draw finds the same sprite in both states, and its corner `dx` columns and `dy` rows on in the
second one. -/
structure State.Moved (s s' : State) (x y : Register) (rows : Fin 16) (dx dy : UInt8) : Prop where
  index : s'.index = s.index
  sprite : ∀ row < rows.val, s'.spriteRow row = s.spriteRow row
  column : s'.v.get x = s.v.get x + dx
  row : s'.v.get y = s.v.get y + dy

namespace State.Moved

variable {s s' : State} {x y : Register} {rows : Fin 16} {dx dy : UInt8}
  (h : s.Moved s' x y rows dx dy)
include h

theorem spriteBits : s'.spriteBits rows = s.spriteBits rows :=
  s.spriteBits_congr rows h.sprite

variable {wrap : Wrap} (hedge : wrap = .flat → (s.v.get x).toNat + dx.toNat ≤ 255)
include hedge

theorem spriteCell (bit : Nat × Nat) :
    s'.spriteCell wrap x y bit = wrap.shift dx.toNat dy.toNat (s.spriteCell wrap x y bit) := by
  rw [State.spriteCell, State.spriteCell, h.column, h.row]
  exact wrap.cell_add _ _ _ _ _ _ hedge

/-- **The cells of the sprite move** with its corner. -/
theorem mem_spriteCells (c : Cell) :
    wrap.shift dx.toNat dy.toNat c ∈ s'.spriteCells wrap x y rows ↔
      c ∈ s.spriteCells wrap x y rows := by
  have hinj := (wrap.shift_bijective dx.toNat dy.toNat).injective
  simp only [spriteCells, Finset.mem_image, h.spriteBits, h.spriteCell hedge, hinj.eq_iff]

theorem isLit_drawn (c : Cell) :
    (Instruction.drawn wrap s' (s'.v.get x) (s'.v.get y) rows.val).frame.isLit
        (wrap.shift dx.toNat dy.toNat c) =
      (s'.frame.isLit (wrap.shift dx.toNat dy.toNat c) ^^
        decide (c ∈ s.spriteCells wrap x y rows)) := by
  rw [State.isLit_drawn, decide_eq_decide.2 (h.mem_spriteCells hedge c)]

/-- **A draw on the rotated screen** leaves the rotated picture and the same collision. -/
theorem execute_draw (byte : UInt8) (hpc : s.pc.toNat ≤ 0xFFFD) (hpc' : s'.pc.toNat ≤ 0xFFFD)
    (hfits : s.index.toNat + rows.val ≤ 4096)
    (hframe : s.frame.Rotated wrap dx.toNat dy.toNat s'.frame) :
    ∃ t t', (Instruction.draw x y rows).execute wrap byte s = .ok t ∧
      (Instruction.draw x y rows).execute wrap byte s' = .ok t' ∧
      t.frame.Rotated wrap dx.toNat dy.toNat t'.frame ∧
      t'.v.get flagRegister = t.v.get flagRegister := by
  refine ⟨_, _, State.execute_draw hpc hfits wrap byte x y,
    State.execute_draw hpc' (h.index ▸ hfits) wrap byte x y, fun c => ?_, ?_⟩
  · have hmoved := h.isLit_drawn hedge c
    rw [hframe c, ← s.isLit_drawn wrap x y rows c] at hmoved
    exact hmoved
  · refine (s'.flag_drawn wrap x y rows).trans (Eq.trans ?_ (s.flag_drawn wrap x y rows).symm)
    simp only [h.spriteBits, h.spriteCell hedge, hframe _]

end State.Moved

/-! ## Moving by addition -/

/-- Adding to the two coordinates moves the sprite. -/
theorem State.execute_addBytes {s : State} (hpc : s.pc.toNat ≤ 0xFFFB) {x y : Register}
    (hxy : x ≠ y) (rows : Fin 16) (dx dy : UInt8) (wrap : Wrap) (byte : UInt8)
    (is : List Instruction) :
    ∃ t, Instruction.executeAll wrap byte s (.addByte x dx :: .addByte y dy :: is) =
        Instruction.executeAll wrap byte t is ∧
      s.Moved t x y rows dx dy ∧ t.frame = s.frame ∧ t.pc = s.pc + 4 := by
  let first : State := { s.setV x (s.v.get x + dx) with pc := s.pc + 2 }
  let second : State := { first.setV y (first.v.get y + dy) with pc := first.pc + 2 }
  have hpc' : first.pc.toNat = s.pc.toNat + 2 := State.toNat_behind (by omega)
  have hfirst : (Instruction.addByte x dx).execute wrap byte s = .ok first :=
    Instruction.execute_of_goesOn (by omega) rfl rfl wrap byte
  have hsecond : (Instruction.addByte y dy).execute wrap byte first = .ok second :=
    Instruction.execute_of_goesOn (by omega) rfl rfl wrap byte
  have hcolumn : first.v.get x = s.v.get x + dx := (s.get_setV x x _).trans (if_pos rfl)
  have hrow : first.v.get y = s.v.get y := (s.get_setV x y _).trans (if_neg hxy)
  refine ⟨second, ?_, ⟨rfl, fun _ _ => rfl, ?_, ?_⟩, rfl, UInt16.add_assoc s.pc 2 2⟩
  · rw [Instruction.executeAll_cons hfirst, Instruction.executeAll_cons hsecond]
  · refine ((first.get_setV y x _).trans (if_neg hxy.symm)).trans hcolumn
  · refine (first.get_setV y y _).trans ((if_pos rfl).trans ?_)
    rw [hrow]

/-- **A draw moves with its sprite.** The rotation of the screen by `dx` columns and `dy` rows takes
each cell to one of its own. Take two states of which the second has the same sprite at `I` and its
corner `dx` columns and `dy` rows on, both added around the end of a byte; if the flat run of cells
is what wraps, then the columns must not have gone around. If the screen of the second state is the
rotated screen of the first one, then so it is behind a draw, and `VF` is the same. So a sprite that
is moved by additions to its coordinates does not jump: the cells that a draw changes over are the
rotated ones. -/
theorem draw_moves_with_sprite (wrap : Wrap) (byte : UInt8) (x y : Register) (rows : Fin 16)
    (dx dy : UInt8) :
    Function.Bijective (wrap.shift dx.toNat dy.toNat) ∧
    (∀ s s' : State, s.pc.toNat ≤ 0xFFFD → s'.pc.toNat ≤ 0xFFFD →
      s.index.toNat + rows.val ≤ 4096 → s.Moved s' x y rows dx dy →
      (wrap = .flat → (s.v.get x).toNat + dx.toNat ≤ 255) →
      s.frame.Rotated wrap dx.toNat dy.toNat s'.frame →
      ∃ t t', (Instruction.draw x y rows).execute wrap byte s = .ok t ∧
        (Instruction.draw x y rows).execute wrap byte s' = .ok t' ∧
        t.frame.Rotated wrap dx.toNat dy.toNat t'.frame ∧
        t'.v.get flagRegister = t.v.get flagRegister) ∧
    ∀ s : State, x ≠ y → s.pc.toNat ≤ 0xFFF9 → s.index.toNat + rows.val ≤ 4096 →
      (wrap = .flat → (s.v.get x).toNat + dx.toNat ≤ 255) →
      ∃ t t', (Instruction.draw x y rows).execute wrap byte s = .ok t ∧
        Instruction.executeAll wrap byte s [.addByte x dx, .addByte y dy, .draw x y rows] =
          .ok t' ∧
        ∀ c, (t'.frame.isLit (wrap.shift dx.toNat dy.toNat c) ≠
            s.frame.isLit (wrap.shift dx.toNat dy.toNat c) ↔
          t.frame.isLit c ≠ s.frame.isLit c) := by
  refine ⟨wrap.shift_bijective _ _, fun s s' hpc hpc' hfits hmoved hedge hframe =>
    hmoved.execute_draw hedge byte hpc hpc' hfits hframe, fun s hxy hpc hfits hedge => ?_⟩
  have hpc₂ : s.pc.toNat ≤ 0xFFFB := by omega
  obtain ⟨moved, hall, hmoved, hframe, hpc'⟩ :=
    State.execute_addBytes hpc₂ hxy rows dx dy wrap byte [.draw x y rows]
  have hpc₄ : moved.pc.toNat ≤ 0xFFFD := by
    have hnat : (s.pc + 4).toNat = (s.pc.toNat + 4) % 65536 := UInt16.toNat_add s.pc 4
    rw [hpc']
    omega
  have hdraw := State.execute_draw hpc₄ (hmoved.index ▸ hfits) wrap byte x y
  refine ⟨_, _, State.execute_draw (by omega) hfits wrap byte x y,
    hall.trans (Instruction.executeAll_cons hdraw []), fun c => ?_⟩
  have hto := moved.isLit_drawn_ne_iff wrap x y rows (wrap.shift dx.toNat dy.toNat c)
  rw [hframe, hmoved.mem_spriteCells hedge c] at hto
  exact hto.trans (s.isLit_drawn_ne_iff wrap x y rows c).symm

/-- A glyph in column 250 moves ten columns on and six rows up. Both coordinates go around the end
of a byte, and the pixel in its corner collides in both places. -/
theorem draw_moves_around_byte :
    let s : State := { (State.powerOn.setV 0 250).setV 1 20 with
      frame := Frame.blank.flip (Wrap.toroidal.cell 250 20) }
    let s' : State := { (State.powerOn.setV 0 4).setV 1 14 with
      pc := 0x300, frame := Frame.blank.flip (Wrap.toroidal.cell 4 14) }
    s.Moved s' 0 1 5 10 250 ∧ s.frame.Rotated .toroidal 10 250 s'.frame ∧
      (∃ t t', (Instruction.draw 0 1 5).execute .toroidal 0 s = .ok t ∧
        (Instruction.draw 0 1 5).execute .toroidal 0 s' = .ok t' ∧
        t.frame.Rotated .toroidal 10 250 t'.frame ∧
        t.v.get flagRegister = 1 ∧ t'.v.get flagRegister = 1) ∧
      ∃ t t', (Instruction.draw 0 1 5).execute .toroidal 0 s = .ok t ∧
        Instruction.executeAll .toroidal 0 s [.addByte 0 10, .addByte 1 250, .draw 0 1 5] =
          .ok t' ∧
        ∀ c, (t'.frame.isLit (Wrap.toroidal.shift 10 250 c) ≠
            s.frame.isLit (Wrap.toroidal.shift 10 250 c) ↔
          t.frame.isLit c ≠ s.frame.isLit c) := by
  intro s s'
  have hmoved : s.Moved s' 0 1 5 10 250 :=
    ⟨rfl, fun _ _ => rfl, by decide +kernel, by decide +kernel⟩
  have hframe : s.frame.Rotated .toroidal 10 250 s'.frame := by
    intro c
    have hcorner : Wrap.toroidal.cell 4 14 =
        Wrap.toroidal.shift 10 250 (Wrap.toroidal.cell 250 20) := by decide
    have hinj := (Wrap.toroidal.shift_bijective 10 250).injective
    simp only [s, s', hcorner, Frame.isLit_flip, Frame.isLit_blank, hinj.eq_iff]
  obtain ⟨-, htwo, hadded⟩ := draw_moves_with_sprite .toroidal 0 0 1 5 10 250
  obtain ⟨t, t', ht, ht', hrotated, hflag⟩ :=
    htwo s s' (by decide) (by decide) (by decide) hmoved nofun hframe
  have hhit : ((Instruction.draw 0 1 5).execute .toroidal 0 s).toOption.map
      (·.v.get flagRegister) = some 1 := by decide +kernel
  rw [ht] at hhit
  have hone : t.v.get flagRegister = 1 := Option.some.inj hhit
  exact ⟨hmoved, hframe, ⟨t, t', ht, ht', hrotated, hone, hflag.trans hone⟩,
    hadded s (by decide) (by decide) (by decide) nofun⟩

end Chip8VM
