import Mathlib.Data.List.Count
import Chip8VM.Proofs.Machine.Picture

/-!
# Draws over one another

A draw changes cells over, and it does not matter when: after a list of draws a cell is changed over
as often as draws of the list fall on it (`Instruction.draws_inPlace`), so that the order of the
list is lost in the count. The one thing in the way is the collision, which each draw puts into
`VF`: the draws must take no coordinate from there, and then all of them find what the first one
found (`State.SameAim`).
-/

set_option autoImplicit false

namespace Chip8VM

/-! ## What a draw aims at -/

/-- A draw finds the same in both states, if it takes no coordinate from `VF`. -/
structure State.SameAim (s t : State) : Prop where
  index : t.index = s.index
  memory : t.memory = s.memory
  registers : ∀ r ≠ flagRegister, t.v.get r = s.v.get r

/-- An instruction draws a sprite that is in memory, in a place that no collision can move. -/
inductive Instruction.DrawsSteadily (s : State) : Instruction → Prop
  | draw {x y : Register} {rows : Fin 16} : x ≠ flagRegister → y ≠ flagRegister →
      s.index.toNat + rows.val ≤ 4096 → DrawsSteadily s (.draw x y rows)

/-- The cells that an instruction changes over, if it is a draw. -/
def Instruction.aim (wrap : Wrap) (s : State) : Instruction → Finset Cell
  | .draw x y rows => s.spriteCells wrap x y rows
  | _ => ∅

namespace State.SameAim

variable {s t : State}

theorem refl (s : State) : s.SameAim s := ⟨rfl, rfl, fun _ _ => rfl⟩

theorem trans {u : State} (h : s.SameAim t) (h' : t.SameAim u) : s.SameAim u where
  index := h'.index.trans h.index
  memory := h'.memory.trans h.memory
  registers r hr := (h'.registers r hr).trans (h.registers r hr)

theorem spriteBits (h : s.SameAim t) (rows : Fin 16) : t.spriteBits rows = s.spriteBits rows := by
  refine s.spriteBits_congr rows fun row _ => ?_
  rw [spriteRow, spriteRow, h.index, h.memory]

theorem spriteCell (h : s.SameAim t) {x y : Register} (hx : x ≠ flagRegister)
    (hy : y ≠ flagRegister) (wrap : Wrap) : t.spriteCell wrap x y = s.spriteCell wrap x y := by
  funext bit
  rw [State.spriteCell, State.spriteCell, h.registers x hx, h.registers y hy]

theorem aim (h : s.SameAim t) {i : Instruction} (hi : i.DrawsSteadily s) (wrap : Wrap) :
    i.aim wrap t = i.aim wrap s := by
  cases hi with
  | draw hx hy hfits =>
    rw [Instruction.aim, Instruction.aim, spriteCells, spriteCells, h.spriteBits,
      h.spriteCell hx hy]

theorem drawsSteadily (h : s.SameAim t) {i : Instruction} (hi : i.DrawsSteadily s) :
    i.DrawsSteadily t := by
  cases hi with
  | draw hx hy hfits => exact .draw hx hy (h.index ▸ hfits)

end State.SameAim

/-- A draw moves no aim, wherever it leaves the counter. -/
theorem State.sameAim_drawn (s : State) (wrap : Wrap) (x y : UInt8) (height : Nat) (pc : Word) :
    s.SameAim { Instruction.drawn wrap s x y height with pc } := by
  refine ⟨rfl, rfl, fun r hr => ?_⟩
  show (Instruction.drawn wrap s x y height).v.get r = s.v.get r
  rw [Instruction.drawn, get_setV, if_neg hr.symm]

/-! ## Draws in place -/

namespace Instruction

/-- Carries an instruction out and puts the counter back. -/
def executeInPlace (wrap : Wrap) (byte : UInt8) (s : State) (i : Instruction) :
    Except Refusal State := do
  let t ← i.execute wrap byte s
  return { t with pc := s.pc }

/-- **One draw** changes its cells over, and what it aimed at stays. -/
theorem draw_inPlace {s : State} (hpc : s.pc.toNat ≤ 0xFFFD) {i : Instruction}
    (hi : i.DrawsSteadily s) (wrap : Wrap) (byte : UInt8) :
    ∃ t, i.executeInPlace wrap byte s = .ok t ∧ t.pc = s.pc ∧ s.SameAim t ∧
      ∀ c, t.frame.isLit c = (s.frame.isLit c ^^ decide (c ∈ i.aim wrap s)) := by
  cases hi with
  | @draw x y rows hx hy hfits =>
    refine ⟨{ drawn wrap s (s.v.get x) (s.v.get y) rows.val with pc := s.pc }, ?_, rfl,
      s.sameAim_drawn wrap _ _ _ _, s.isLit_drawn wrap x y rows⟩
    rw [executeInPlace, State.execute_draw hpc hfits]
    rfl

/-- **Draws one after another** change each cell over as often as they fall on it. -/
theorem draws_inPlace {s : State} (hpc : s.pc.toNat ≤ 0xFFFD) {is : List Instruction}
    (h : ∀ i ∈ is, i.DrawsSteadily s) (wrap : Wrap) (byte : UInt8) :
    ∃ t, is.foldlM (executeInPlace wrap byte) s = .ok t ∧
      ∀ c, t.frame.isLit c =
        (s.frame.isLit c ^^ decide (is.countP (fun i => c ∈ i.aim wrap s) % 2 = 1)) := by
  induction is generalizing s with
  | nil => exact ⟨s, rfl, fun c => by simp⟩
  | cons i is ih =>
    obtain ⟨t, ht, hpc', haim, hfirst⟩ := draw_inPlace hpc (h i List.mem_cons_self) wrap byte
    have hrest : ∀ j ∈ is, j.DrawsSteadily s := fun j hj => h j (List.mem_cons_of_mem i hj)
    obtain ⟨t', ht', hlit⟩ := ih (hpc' ▸ hpc) fun j hj => haim.drawsSteadily (hrest j hj)
    refine ⟨t', ?_, fun c => ?_⟩
    · rw [List.foldlM_cons, ht]
      exact ht'
    · -- The draws behind the first one fall on the cell from either state.
      have hcount : is.countP (fun j => c ∈ j.aim wrap t) =
          is.countP (fun j => c ∈ j.aim wrap s) :=
        List.countP_congr fun j hj => by rw [haim.aim (hrest j hj)]
      rw [hlit, hfirst, hcount, List.countP_cons]
      by_cases hc : c ∈ i.aim wrap s <;>
        rcases Nat.mod_two_eq_zero_or_one (is.countP fun j => c ∈ j.aim wrap s) with hn | hn <;>
        simp [hc, hn, Nat.add_mod]

/-! ## A draw and the same draw again -/

/-- **The same draw twice** leaves the screen as it was. Its second collision is one with a pixel
that the first draw lit. -/
theorem draw_twice {s : State} (hpc : s.pc.toNat ≤ 0xFFFB) {x y : Register} {rows : Fin 16}
    (hx : x ≠ flagRegister) (hy : y ≠ flagRegister) (hfits : s.index.toNat + rows.val ≤ 4096)
    (wrap : Wrap) (byte : UInt8) :
    ∃ t t', (draw x y rows).execute wrap byte s = .ok t ∧
      (draw x y rows).execute wrap byte t = .ok t' ∧ t'.frame = s.frame ∧
      t.v.get flagRegister = (decide (∃ bit ∈ s.spriteBits rows,
        s.frame.isLit (s.spriteCell wrap x y bit) = true)).toUInt8 ∧
      t'.v.get flagRegister = (decide (∃ bit ∈ s.spriteBits rows,
        s.frame.isLit (s.spriteCell wrap x y bit) = false)).toUInt8 := by
  let t : State := { drawn wrap s (s.v.get x) (s.v.get y) rows.val with pc := s.pc + 2 }
  have hpc' : t.pc.toNat = s.pc.toNat + 2 := State.toNat_behind (by omega)
  have haim : s.SameAim t := s.sameAim_drawn wrap _ _ _ _
  have hfirst : ∀ c, t.frame.isLit c =
      (s.frame.isLit c ^^ decide (c ∈ (draw x y rows).aim wrap s)) := s.isLit_drawn wrap x y rows
  refine ⟨t, _, State.execute_draw (by omega) hfits wrap byte x y,
    State.execute_draw (s := t) (by omega) hfits wrap byte x y, ?_, ?_, ?_⟩
  · refine Frame.ext_isLit fun c => ?_
    have hsecond := t.isLit_drawn wrap x y rows c
    have hcells : t.spriteCells wrap x y rows = (draw x y rows).aim wrap s :=
      haim.aim (.draw hx hy hfits) wrap
    rw [hfirst, hcells, Bool.xor_assoc, Bool.xor_self, Bool.xor_false] at hsecond
    exact hsecond
  · exact s.flag_drawn wrap x y rows
  · refine (t.flag_drawn wrap x y rows).trans ?_
    rw [haim.spriteBits, haim.spriteCell hx hy]
    congr 1
    refine decide_eq_decide.2 (exists_congr fun bit => and_congr_right fun hbit => ?_)
    have hmem : s.spriteCell wrap x y bit ∈ (draw x y rows).aim wrap s :=
      Finset.mem_image_of_mem _ hbit
    rw [hfirst, decide_eq_true hmem, Bool.xor_true, Bool.not_eq_true']

end Instruction

/-- **Draws commute, and each undoes itself.** From every reachable state and for either way to
wrap, draws whose sprites are in memory and whose coordinates are not in `VF` complete one after
another, the counter being put back each time, and leave the same screen in any order: each cell is
changed over if an odd number of them falls on it. Such a draw carried out twice leaves the screen
as it was. `VF` is 1 behind the first if a set bit of the sprite fell on a pixel that was lit and 0
if not, and behind the second if one fell on a pixel that was unlit before both. So on a clear
screen a sprite that is not blank leaves 0, then 1, and a clear screen. -/
theorem draws_commute_and_undo {m : Machine} (h : Reachable m) (wrap : Wrap) (byte : UInt8) :
    let s := m.state
    (∀ is js : List Instruction, is.Perm js → (∀ i ∈ is, i.DrawsSteadily s) →
      ∃ t t', is.foldlM (Instruction.executeInPlace wrap byte) s = .ok t ∧
        js.foldlM (Instruction.executeInPlace wrap byte) s = .ok t' ∧ t'.frame = t.frame ∧
        ∀ c, t.frame.isLit c =
          (s.frame.isLit c ^^ decide (is.countP (fun i => c ∈ i.aim wrap s) % 2 = 1))) ∧
    ∀ (x y : Register) (rows : Fin 16), x ≠ flagRegister → y ≠ flagRegister →
      s.index.toNat + rows.val ≤ 4096 →
      ∃ t t', (Instruction.draw x y rows).execute wrap byte s = .ok t ∧
        (Instruction.draw x y rows).execute wrap byte t = .ok t' ∧ t'.frame = s.frame ∧
        t.v.get flagRegister = (decide (∃ bit ∈ s.spriteBits rows,
          s.frame.isLit (s.spriteCell wrap x y bit) = true)).toUInt8 ∧
        t'.v.get flagRegister = (decide (∃ bit ∈ s.spriteBits rows,
          s.frame.isLit (s.spriteCell wrap x y bit) = false)).toUInt8 ∧
        (s.frame = .blank → (s.spriteBits rows).Nonempty →
          t.v.get flagRegister = 0 ∧ t'.v.get flagRegister = 1 ∧ t'.frame = .blank) := by
  intro s
  have hpc : s.pc.toNat ≤ 0x10FE := h.bounded.pc
  constructor
  · intro is js hperm his
    have hjs : ∀ j ∈ js, j.DrawsSteadily s := fun j hj => his j (hperm.mem_iff.2 hj)
    obtain ⟨t, ht, hlit⟩ := Instruction.draws_inPlace (by omega) his wrap byte
    obtain ⟨t', ht', hlit'⟩ := Instruction.draws_inPlace (by omega) hjs wrap byte
    refine ⟨t, t', ht, ht', Frame.ext_isLit fun c => ?_, hlit⟩
    rw [hlit', hlit, hperm.countP_eq]
  · intro x y rows hx hy hfits
    obtain ⟨t, t', ht, ht', hframe, hflag, hflag'⟩ :=
      Instruction.draw_twice (by omega) hx hy hfits wrap byte
    refine ⟨t, t', ht, ht', hframe, hflag, hflag', fun hblank ⟨bit, hbit⟩ => ⟨?_, ?_, ?_⟩⟩
    · have hnone : ¬ ∃ bit ∈ s.spriteBits rows,
          s.frame.isLit (s.spriteCell wrap x y bit) = true := by
        rintro ⟨bit, -, hlit⟩
        rw [hblank, Frame.isLit_blank] at hlit
        cases hlit
      rw [hflag, decide_eq_false hnone]
      rfl
    · have hsome : ∃ bit ∈ s.spriteBits rows,
          s.frame.isLit (s.spriteCell wrap x y bit) = false := by
        refine ⟨bit, hbit, ?_⟩
        rw [hblank, Frame.isLit_blank]
      rw [hflag', decide_eq_true hsome]
      rfl
    · rw [hframe, hblank]

/-- A row of four pixels stands across the corner of the screen. The glyph of `0` falls on them
and on cells that are unlit, so both of its draws there collide. -/
theorem draws_commute_across_corner :
    let m := (Operation.run (.new .toroidal) (.ofSeed 1)
      [.load [0x60, 0x3E, 0x61, 0x1F, 0xD0, 0x11], .step, .step, .step]).machine
    let is : List Instruction := [.draw 0 1 5, .draw 1 0 5, .draw 0 1 4]
    Reachable m ∧ (∀ i ∈ is, i.DrawsSteadily m.state) ∧
      (∃ t t', is.foldlM (Instruction.executeInPlace .toroidal 0) m.state = .ok t ∧
        is.reverse.foldlM (Instruction.executeInPlace .toroidal 0) m.state = .ok t' ∧
        t'.frame = t.frame) ∧
      ∃ t t', (Instruction.draw 0 1 5).execute .toroidal 0 m.state = .ok t ∧
        (Instruction.draw 0 1 5).execute .toroidal 0 t = .ok t' ∧ t'.frame = m.state.frame ∧
        t.v.get flagRegister = 1 ∧ t'.v.get flagRegister = 1 := by
  intro m is
  have hm : Reachable m := (Reachable.new .toroidal).run _ _
  have hbefore : m.state.index = 0 ∧
      ((0, 3) ∈ m.state.spriteBits 5 ∧
        m.state.frame.isLit (m.state.spriteCell .toroidal 0 1 (0, 3)) = true) ∧
      (1, 0) ∈ m.state.spriteBits 5 ∧
        m.state.frame.isLit (m.state.spriteCell .toroidal 0 1 (1, 0)) = false := by
    decide +kernel
  obtain ⟨hindex, hlit, hunlit⟩ := hbefore
  have hsteady : ∀ i ∈ is, i.DrawsSteadily m.state := by
    have hdraw : ∀ (x y : Register) (rows : Fin 16), x ≠ flagRegister → y ≠ flagRegister →
        (Instruction.draw x y rows).DrawsSteadily m.state := fun x y rows hx hy =>
      .draw hx hy (by rw [hindex]; show 0 + rows.val ≤ 4096; omega)
    simp only [is, List.forall_mem_cons]
    refine ⟨hdraw 0 1 5 ?_ ?_, hdraw 1 0 5 ?_ ?_, hdraw 0 1 4 ?_ ?_, nofun⟩ <;> decide
  obtain ⟨horder, htwice⟩ := draws_commute_and_undo hm .toroidal 0
  obtain ⟨t, t', ht, ht', hframe, -⟩ := horder is is.reverse is.reverse_perm.symm hsteady
  obtain ⟨t₂, t₂', ht₂, ht₂', hback, hflag, hflag', -⟩ :=
    htwice 0 1 5 (by decide) (by decide) (by rw [hindex]; decide)
  rw [decide_eq_true ⟨_, hlit⟩] at hflag
  rw [decide_eq_true ⟨_, hunlit⟩] at hflag'
  exact ⟨hm, hsteady, ⟨t, t', ht, ht', hframe⟩, t₂, t₂', ht₂, ht₂', hback, hflag, hflag'⟩

end Chip8VM
