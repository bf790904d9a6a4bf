import Chip8VM.Proofs.Instruction.Drawing
import Chip8VM.Proofs.Machine.Bounds
import Chip8VM.Proofs.Machine.Inbox
import Chip8VM.Proofs.Machine.Moments
import Chip8VM.Proofs.Machine.Writes

/-!
# The font survives

Programs can write over the font, as it stands in ordinary memory. Only `FX33` and `FX55` reach it,
and they write upwards from `I`: as long as every one of them has `I` behind the font, the font
stays as it was (`Operation.hasFont_run`). Then `FX29` and a draw of five rows show the glyph of a
digit (`State.execute_glyph_draw`): `FX29` points `I` at it (`Memory.HasFont.peek_glyph`), and a
draw of five rows there finds nothing in its way.
-/

set_option autoImplicit false

namespace Chip8VM

/-- The rows of the glyph of a digit. -/
def glyphRows (digit : Nat) : List UInt8 := (font.drop (glyphSize * digit)).take glyphSize

/-- The word is `FX33` or `FX55`. -/
def Word.isStore (w : Word) : Bool := w.nibble 3 == 0xF && (w.low == 0x33 || w.low == 0x55)

/-! ## What writes to memory -/

theorem Word.address_of_write? {w : Word} {s : State} {x : Write} (h : w.write? s = some x) :
    w.isStore = true ∧ x.address = s.index.toNat := by
  unfold write? at h
  split at h
  · next hw =>
    cases h
    simp [isStore, hw]
  · split at h
    · next hw =>
      cases h
      simp [isStore, hw]
    · cases h

/-- A write is one of a load, or of an executed `FX33` or `FX55`. -/
theorem Operation.address_of_write? {s : State} {op : Operation} {r : Reply} {x : Write}
    (h : op.write? s r = some x) :
    x.address = 0x200 ∨ ∃ c ∈ r.cycles, c.word.isStore = true ∧ x.address = s.index.toNat := by
  unfold write? at h
  split at h
  · cases h
    exact .inl rfl
  · obtain ⟨image, -, rfl⟩ := Option.map_eq_some_iff.1 h
    exact .inl rfl
  · exact .inr ⟨_, List.mem_singleton_self _, Word.address_of_write? h⟩
  · cases h

namespace Memory

/-- The font stands at the start of memory. -/
def HasFont (m : Memory) : Prop := ∀ a (h : a < 0x50), m.bytes[a] = font[a]

theorem hasFont_powerOn : powerOn.HasFont := by
  intro a h
  have hrecords := records_powerOn a (by omega)
  rw [initial_eq, dif_pos h] at hrecords
  exact hrecords

theorem HasFont.put {m : Memory} (hm : m.HasFont) {x : Option Write}
    (hx : ∀ w ∈ x, 0x50 ≤ w.address) : (m.put x).HasFont := by
  cases x with
  | none => exact hm
  | some w =>
    intro a h
    have hw := hx w rfl
    rw [Memory.put, getElem_store, dif_neg (by omega)]
    exact hm a h

/-- Five bytes from where `FX29` points are a glyph. -/
theorem HasFont.peek_glyph {m : Memory} (hm : m.HasFont) {digit : Nat} (h : digit < 16) :
    (m.peek (glyphSize * digit) glyphSize).toList = glyphRows digit := by
  have hlen : (glyphRows digit).length = 5 := by
    simp only [glyphRows, List.length_take, List.length_drop, glyphSize, font, List.length_cons,
      List.length_nil]
    omega
  apply List.ext_getElem
  · rw [Vector.length_toList, hlen, glyphSize]
  · intro k hk _
    rw [Vector.length_toList, glyphSize] at hk
    have hlt : glyphSize * digit + k < 0x50 := by
      rw [glyphSize]
      omega
    simp only [Vector.getElem_toList, peek, Vector.getElem_ofFn]
    rw [Vector.getElem?_eq_getElem (show glyphSize * digit + k < 4096 by omega), Option.getD_some,
      hm _ hlt]
    simp only [glyphRows, List.getElem_take, List.getElem_drop]
    rfl

end Memory

/-! ## Operations -/

namespace Operation

theorem hasFont_apply {m : Machine} (hm : m.state.memory.HasFont) (u : Supply) {op : Operation}
    (h : ∀ c ∈ (op.apply m u).reply.cycles, c.word.isStore = true → 0x50 ≤ m.state.index.toNat) :
    (op.apply m u).machine.state.memory.HasFont := by
  by_cases hr : op = .reset
  · subst hr
    exact Memory.hasFont_powerOn
  · rw [(memory_apply m u hr).1]
    refine hm.put fun x hx => ?_
    obtain hload | ⟨c, hc, hstore, hindex⟩ := address_of_write? hx
    · omega
    · rw [hindex]
      exact h c hc hstore

/-- **The font stays** while every store has `I` behind it. -/
theorem hasFont_run {m : Machine} (hm : m.state.memory.HasFont) (u : Supply)
    {ops : List Operation}
    (h : ∀ t ∈ moments m u ops, ∀ c ∈ t.reply.cycles, c.word.isStore = true →
      0x50 ≤ t.machine.state.index.toNat) :
    (run m u ops).machine.state.memory.HasFont := by
  induction ops generalizing m u with
  | nil => exact hm
  | cons op ops ih =>
    have hfirst := hasFont_apply hm u (h _ List.mem_cons_self)
    exact ih hfirst _ fun t ht => h t (List.mem_cons_of_mem _ ht)

end Operation

/-! ## Drawing a digit -/

theorem State.execute_glyph {s : State} (hpc : s.pc.toNat ≤ 0x10FE) (wrap : Wrap) (byte : UInt8)
    (x : Register) :
    (Instruction.glyph x).execute wrap byte s =
      .ok { s with index := UInt16.ofNat (glyphSize * (s.v.get x).toNat), pc := s.pc + 2 } := by
  rw [Nat.mul_comm]
  exact Instruction.execute_of_goesOn (by omega) rfl rfl wrap byte

theorem toNat_glyphAddress {digit : Nat} (h : digit < 16) :
    (UInt16.ofNat (glyphSize * digit)).toNat = glyphSize * digit := by
  rw [UInt16.toNat_ofNat', glyphSize]
  omega

/-- `FX29` and a draw of five rows show the glyph of a digit, where the font is in memory. -/
theorem State.execute_glyph_draw {s : State} (hfont : s.memory.HasFont)
    (hpc : s.pc.toNat ≤ 0x10FE) (wrap : Wrap) (byte : UInt8) {x : Register} (a b : Register)
    (hx : (s.v.get x).toNat < 16) :
    ∃ frame hit,
      ((Instruction.glyph x).execute wrap byte s >>= fun s' =>
          (Instruction.draw a b 5).execute wrap byte s') =
        .ok { s.setV flagRegister (Bool.toUInt8 hit) with
          index := UInt16.ofNat (glyphSize * (s.v.get x).toNat), pc := s.pc + 4
          frame, drawn := true } ∧
      (∀ c, frame.isLit c ≠ s.frame.isLit c ↔
        Sprite.Covers wrap (s.v.get a).toNat (s.v.get b).toNat (glyphRows (s.v.get x).toNat) c) ∧
      (hit = true ↔ ∃ c, s.frame.isLit c = true ∧ frame.isLit c = false) := by
  have hindex := toNat_glyphAddress hx
  have hrows : (s.memory.peek (glyphSize * (s.v.get x).toNat) glyphSize).toList =
      glyphRows (s.v.get x).toNat := hfont.peek_glyph hx
  have hlen : (glyphRows (s.v.get x).toNat).length ≤ 32 := by
    rw [← hrows, Vector.length_toList, glyphSize]
    omega
  refine ⟨_, _, ?_, Sprite.toggleAll_cells s.frame wrap (s.v.get a).toNat (s.v.get b).toNat hlen⟩
  have hpc2 : (s.pc + 2).toNat ≤ 0xFFFD := by
    rw [UInt16.toNat_add]
    simp only [UInt16.reduceToNat]
    omega
  have hfits : (UInt16.ofNat (glyphSize * (s.v.get x).toNat)).toNat + (5 : Fin 16).val ≤ 4096 := by
    rw [hindex, glyphSize]
    show 5 * (s.v.get x).toNat + 5 ≤ 4096
    omega
  have hpc4 : s.pc + 2 + 2 = s.pc + 4 := by
    rw [UInt16.add_assoc]
    rfl
  rw [execute_glyph hpc]
  show (Instruction.draw a b 5).execute wrap byte _ = _
  rw [execute_draw hpc2 hfits, hpc4]
  simp only [Instruction.drawn, hindex]
  rw [← hrows]
  rfl

/-- **The font survives** every history of a new machine in which each `FX33` and `FX55` that was
executed had `I` behind the font. From the state that the history ends in, `FX29` of a register that
holds a digit and then a draw of five rows complete, for either way to wrap. They change exactly the
cells over that the glyph of the digit covers, with its corner where the two registers of the draw
say, put 1 into `VF` if a lit cell went off and 0 if none did, and leave `I` at the glyph, the
counter behind both instructions, and the other registers and all else as they were. -/
theorem font_survives (wrap : Wrap) (u : Supply) {ops : List Operation}
    (h : ∀ t ∈ Operation.moments (.new wrap) u ops, ∀ c ∈ t.reply.cycles, c.word.isStore = true →
      0x50 ≤ t.machine.state.index.toNat) :
    let s := (Operation.run (.new wrap) u ops).machine.state
    s.memory.HasFont ∧
      ∀ (wrap' : Wrap) (byte : UInt8) (x a b : Register), (s.v.get x).toNat < 16 → ∃ frame hit,
        ((Instruction.glyph x).execute wrap' byte s >>= fun s' =>
            (Instruction.draw a b 5).execute wrap' byte s') =
          .ok { s.setV flagRegister (Bool.toUInt8 hit) with
            index := UInt16.ofNat (glyphSize * (s.v.get x).toNat), pc := s.pc + 4
            frame, drawn := true } ∧
        (∀ t, ((Instruction.glyph x).execute wrap' byte s >>= fun s' =>
            (Instruction.draw a b 5).execute wrap' byte s') = .ok t →
          t.v.get flagRegister = (if hit then 1 else 0) ∧
          (∀ r, r ≠ flagRegister → t.v.get r = s.v.get r) ∧
          t.index.toNat = glyphSize * (s.v.get x).toNat ∧ t.pc = s.pc + 4 ∧
          t.frame = frame ∧ t.drawn = true) ∧
        (∀ c, frame.isLit c ≠ s.frame.isLit c ↔
          Sprite.Covers wrap' (s.v.get a).toNat (s.v.get b).toNat (glyphRows (s.v.get x).toNat) c) ∧
        (hit = true ↔ ∃ c, s.frame.isLit c = true ∧ frame.isLit c = false) := by
  intro s
  have hfont : s.memory.HasFont :=
    Operation.hasFont_run (m := .new wrap) Memory.hasFont_powerOn u h
  have hbounded : s.Bounded := ((Reachable.new wrap).run u ops).bounded
  refine ⟨hfont, fun wrap' byte x a b hx => ?_⟩
  obtain ⟨frame, hit, hok, hcells, hhit⟩ :=
    State.execute_glyph_draw hfont hbounded.pc wrap' byte a b hx
  refine ⟨frame, hit, hok, fun t ht => ?_, hcells, hhit⟩
  cases hok.symm.trans ht
  obtain ⟨hflag, hothers⟩ := s.registers_setV flagRegister _
  exact ⟨hflag, hothers, toNat_glyphAddress hx, rfl, rfl, rfl⟩

/-- A program that stores the digits of ten and then a register behind the font, and then shows the
glyph of `A`. -/
theorem font_survives_stores_behind_it :
    let ops : List Operation :=
      [.load [0xA3, 0x00, 0x60, 0x0A, 0xF0, 0x33, 0xF0, 0x55], .step, .step, .step, .step]
    let s := (Operation.run (.new .flat) (.ofSeed 1) ops).machine.state
    (∀ t ∈ Operation.moments (.new .flat) (.ofSeed 1) ops, ∀ c ∈ t.reply.cycles,
      c.word.isStore = true → 0x50 ≤ t.machine.state.index.toNat) ∧
    (s.v.get 0).toNat < 16 ∧ s.memory.HasFont ∧
    ∃ s', ((Instruction.glyph 0).execute .toroidal 0 s >>= fun s' =>
        (Instruction.draw 1 2 5).execute .toroidal 0 s') = .ok s' ∧
      s'.index.toNat = 50 ∧ s'.frame.isLit 0 = true := by
  intro ops s
  have hstores : ∀ t ∈ Operation.moments (.new .flat) (.ofSeed 1) ops, ∀ c ∈ t.reply.cycles,
      c.word.isStore = true → 0x50 ≤ t.machine.state.index.toNat := by
    decide +kernel
  have hregisters : s.v = (Vector.replicate 16 0).set 0 10 := by decide +kernel
  have hdigit : (s.v.get 0).toNat = 10 := by rw [hregisters]; rfl
  have hunlit : s.frame.isLit 0 = false := by decide +kernel
  obtain ⟨hfont, hdraw⟩ := font_survives .flat (.ofSeed 1) hstores
  obtain ⟨frame, hit, hok, hreads, hcells, -⟩ := hdraw .toroidal 0 0 1 2 (by rw [hdigit]; decide)
  obtain ⟨-, -, hindex, -⟩ := hreads _ hok
  refine ⟨hstores, by rw [hdigit]; decide, hfont, _, hok, ?_, ?_⟩
  · rw [hindex, hdigit]
    rfl
  · -- The first cell is the first pixel of the glyph.
    have hcovers : Sprite.Covers .toroidal (s.v.get 1).toNat (s.v.get 2).toNat
        (glyphRows (s.v.get 0).toNat) 0 := by
      rw [hregisters]
      exact ⟨0, 0, by decide, by decide, by decide, by decide⟩
    have hchanged := (hcells 0).2 hcovers
    rw [hunlit, ne_eq, Bool.not_eq_false] at hchanged
    exact hchanged

end Chip8VM
