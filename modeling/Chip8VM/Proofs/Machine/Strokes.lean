import Chip8VM.Proofs.Instruction.Drawing
import Chip8VM.Proofs.Machine.Moments
import Chip8VM.Proofs.Machine.Screen

/-!
# What was drawn, and whether it was taken

`00E0` and `DXYN` are the strokes of which the picture on the screen is made; that of `DXYN` changes
the cells over that its sprite covers (`Word.stroke?_draw`). The screen is what the strokes since
the last reset leave, one after another (`Operation.frame_run`), and `takeFrame` gives it away
exactly if one of them is outstanding, that is, was made since the last reset and since a frame was
last given away (`Operation.drawn_run`). Both follow from what one operation does to the screen and
its mark (`frame_apply`, `drawn_apply`).
-/

set_option autoImplicit false

namespace Chip8VM

/-- What `00E0` or `DXYN` does to the screen. -/
inductive Stroke where
  | clear
  /-- Each of the cells is changed over. -/
  | sprite (cells : List Cell)

/-- The screen behind a stroke. -/
def Stroke.on (f : Frame) : Stroke → Frame
  | .clear => .blank
  | .sprite cells => ⟨Vector.ofFn fun c => f.isLit c ^^ decide (c ∈ cells)⟩

theorem Stroke.isLit_on_sprite_ne_iff {f : Frame} {cells : List Cell} {c : Cell} :
    ((sprite cells).on f).isLit c ≠ f.isLit c ↔ c ∈ cells := by
  simp only [on]
  show (Vector.ofFn _)[c.val] ≠ _ ↔ _
  rw [Vector.getElem_ofFn, Frame.xor_ne_iff]
  exact decide_eq_true_iff

/-- The stroke of a word, if it is `00E0` or `DXYN`. -/
def Word.stroke? (w : Word) (wrap : Wrap) (s : State) : Option Stroke :=
  if w = 0x00E0 then some .clear
  else if w.nibble 3 = 0xD then
    some (.sprite (Sprite.cells wrap (s.v.get w.x).toNat (s.v.get w.y).toNat
      (s.memory.peek s.index.toNat w.n.val).toList))
  else none

theorem Word.isSome_stroke?_iff {w : Word} {wrap : Wrap} {s : State} :
    (w.stroke? wrap s).isSome = true ↔ w = 0x00E0 ∨ w.nibble 3 = 0xD := by
  unfold stroke?
  by_cases hclear : w = 0x00E0
  · simp [hclear]
  · by_cases hdraw : w.nibble 3 = 0xD <;> simp [hclear, hdraw]

theorem Word.stroke?_clear (wrap : Wrap) (s : State) :
    (0x00E0 : Word).stroke? wrap s = some .clear := rfl

/-- **The stroke of `DXYN`** changes the cells over that its sprite covers. -/
theorem Word.stroke?_draw {w : Word} (hw : w.nibble 3 = 0xD) (wrap : Wrap) (s : State) :
    ∃ stroke, w.stroke? wrap s = some stroke ∧ ∀ f c, (stroke.on f).isLit c ≠ f.isLit c ↔
      Sprite.Covers wrap (s.v.get w.x).toNat (s.v.get w.y).toNat
        (s.memory.peek s.index.toNat w.n.val).toList c := by
  have hclear : w ≠ 0x00E0 := by
    rintro rfl
    revert hw
    decide
  refine ⟨_, (if_neg hclear).trans (if_pos hw), fun f c => ?_⟩
  exact Stroke.isLit_on_sprite_ne_iff.trans Sprite.mem_cells

namespace Instruction

/-! ## One instruction -/

/-- The stroke of an instruction, if it is `00E0` or `DXYN`. -/
def stroke? (wrap : Wrap) (s : State) : Instruction → Option Stroke
  | .clear => some .clear
  | .draw x y rows =>
    some (.sprite (Sprite.cells wrap (s.v.get x).toNat (s.v.get y).toNat
      (s.memory.peek s.index.toNat rows.val).toList))
  | _ => none

theorem stroke?_encode (wrap : Wrap) (s : State) (i : Instruction) :
    i.encode.stroke? wrap s = i.stroke? wrap s := by
  unfold Word.stroke?
  by_cases hclear : i.encode = 0x00E0
  · rw [if_pos hclear, eq_of_encode hclear rfl]
    rfl
  · rw [if_neg hclear]
    cases i with
    | clear => exact absurd rfl hclear
    | ret => rfl
    | draw x y rows =>
      simp only [encode, Word.nibble_three_ofNibbles, if_true, Word.x_ofNibbles, Word.y_ofNibbles]
      rw [Word.n_ofNibbles]
      rfl
    | _ =>
      simp [stroke?, encode, Word.nibble_three_ofNibbles, Word.nibble_three_ofAddress,
        Word.nibble_three_ofByte]

/-- Toggling the cells of a sprite is a stroke, as it has too few rows to fall on itself. -/
theorem frame_drawn (wrap : Wrap) (s : State) (x y : UInt8) (rows : Fin 16) :
    (drawn wrap s x y rows.val).frame =
      (Stroke.sprite (Sprite.cells wrap x.toNat y.toNat
        (s.memory.peek s.index.toNat rows.val).toList)).on s.frame := by
  have hlen : (s.memory.peek s.index.toNat rows.val).toList.length ≤ 32 := by
    rw [Vector.length_toList]
    omega
  have hnodup := Sprite.nodup_cells wrap x.toNat y.toNat hlen
  refine Frame.ext_isLit fun c => (Frame.isLit_toggleAll_of_nodup hnodup c).trans ?_
  simp only [Stroke.on]
  show _ = (Vector.ofFn _)[c.val]
  rw [Vector.getElem_ofFn]

theorem effect_stroke (wrap : Wrap) (byte : UInt8) (s : State) (i : Instruction) :
    (i.effect wrap byte s).frame = (i.stroke? wrap s).toList.foldl Stroke.on s.frame ∧
      (i.effect wrap byte s).drawn = (s.drawn || (i.stroke? wrap s).isSome) := by
  cases i with
  | clear => exact ⟨rfl, (Bool.or_true _).symm⟩
  | draw x y rows => exact ⟨frame_drawn wrap s _ _ rows, (Bool.or_true _).symm⟩
  | load x =>
    simp only [effect, State.moveIndex, stroke?, Option.toList_none, List.foldl_nil,
      Option.isSome_none, Bool.or_false, and_self]
  | _ => exact ⟨rfl, (Bool.or_false _).symm⟩

end Instruction

/-! ## Moments -/

namespace Moment

/-- The stroke of an instruction that was executed. -/
def stroke? (t : Moment) : Option Stroke :=
  match t.reply with
  | .stepped (.executed c) => c.word.stroke? t.machine.wrap t.machine.state
  | _ => none

theorem stroke?_of_mem_cycles {t : Moment} {c : Cycle} (h : c ∈ t.reply.cycles) :
    t.stroke? = c.word.stroke? t.machine.wrap t.machine.state := by
  unfold Reply.cycles at h
  unfold stroke?
  cases hr : t.reply with
  | stepped did =>
    rw [hr] at h
    cases did with
    | executed c' => rw [List.mem_singleton.1 h]
    | _ => cases h
  | _ =>
    rw [hr] at h
    cases h

theorem isSome_stroke?_iff {t : Moment} :
    t.stroke?.isSome = true ↔
      ∃ c ∈ t.reply.cycles, c.word = 0x00E0 ∨ c.word.nibble 3 = 0xD := by
  unfold stroke? Reply.cycles
  cases t.reply with
  | stepped did => cases did <;> simp [Word.isSome_stroke?_iff]
  | _ => simp

/-- Nothing drawn before is to be taken: a reset, or a frame was given away. -/
def settles (t : Moment) : Bool :=
  decide (t.operation = .reset) || (Operation.taken (t.operation, t.reply)).isSome

/-- The moments behind the last one that settles. -/
def outstanding (ts : List Moment) : List Moment := ts.rtakeWhile (!·.settles)

theorem outstanding_concat (ts : List Moment) (t : Moment) :
    outstanding (ts ++ [t]) = if t.settles then [] else outstanding ts ++ [t] := by
  rw [outstanding, List.rtakeWhile_concat]
  cases t.settles <;> rfl

end Moment

/-! ## One operation -/

namespace Operation

variable (m : Machine) (u : Supply)

theorem stroke?_moment_of_ne {op : Operation} (h : op ≠ .step) :
    (op.moment m u).stroke? = none := by
  unfold Moment.stroke?
  split
  · next c hc => exact absurd hc (reply_ne_stepped m u h _)
  · rfl

theorem screen_step :
    (m.step u).machine.state.frame =
        (moment m u .step).stroke?.toList.foldl Stroke.on m.state.frame ∧
      (m.step u).machine.state.drawn = (m.state.drawn || (moment m u .step).stroke?.isSome) := by
  have ho := m.step_outcome u
  simp only [moment, apply, Moment.stroke?]
  generalize m.step u = a at ho ⊢
  cases ho with
  | @executed i =>
    simp only [Machine.executed, Instruction.stroke?_encode]
    exact i.effect_stroke m.wrap u.peek m.state
  | @refused i r => cases r <;> exact ⟨rfl, (Bool.or_false _).symm⟩
  | _ => exact ⟨rfl, (Bool.or_false _).symm⟩

theorem frame_apply (op : Operation) :
    (op.apply m u).machine.state.frame =
      if op = .reset then .blank
      else (op.moment m u).stroke?.toList.foldl Stroke.on m.state.frame := by
  by_cases hr : op = .reset
  · subst hr
    rfl
  rw [if_neg hr]
  by_cases hs : op = .step
  · subst hs
    exact (screen_step m u).1
  · rw [stroke?_moment_of_ne m u hs]
    exact (sameCore_apply m u hs hr).frame

/-- An operation that takes no frame and resets nothing marks the screen if it draws, and leaves the
mark alone if it does not. -/
theorem drawn_apply_of_ne {op : Operation} (hr : op ≠ .reset) (ht : op ≠ .takeFrame) :
    (op.apply m u).machine.state.drawn = (m.state.drawn || (op.moment m u).stroke?.isSome) := by
  by_cases hs : op = .step
  · subst hs
    exact (screen_step m u).2
  · rw [stroke?_moment_of_ne m u hs, Option.isSome_none, Bool.or_false]
    have hc := change m u hs
    generalize (op.apply m u).machine = m' at hc ⊢
    cases hc with
    | reset => exact absurd rfl hr
    | takeFrame => exact absurd rfl ht
    | _ => rfl

theorem drawn_apply (op : Operation) :
    (op.apply m u).machine.state.drawn =
      if (op.moment m u).settles then false
      else (m.state.drawn || (op.moment m u).stroke?.isSome) := by
  by_cases hr : op = .reset
  · subst hr
    rfl
  by_cases ht : op = .takeFrame
  · subst ht
    simp only [moment, Moment.settles, Moment.stroke?, taken, apply, Machine.takeFrame]
    cases hd : m.state.drawn <;> simp [hd]
  · have hsettles : (op.moment m u).settles = false := by
      simp only [Moment.settles, moment, taken_of_ne ht, Option.isSome_none, Bool.or_false]
      exact decide_eq_false hr
    rw [hsettles]
    exact drawn_apply_of_ne m u hr ht

/-! ## A history -/

variable {m}

/-- **The screen is marked** while a stroke is outstanding. -/
theorem drawn_run (hm : m.state.drawn = false) (ops : List Operation) :
    (run m u ops).machine.state.drawn =
      (Moment.outstanding (moments m u ops)).any (·.stroke?.isSome) := by
  induction ops using List.reverseRecOn with
  | nil => exact hm
  | append_singleton ops op ih =>
    rw [run_concat, moments_concat, Moment.outstanding_concat]
    show (op.apply _ _).machine.state.drawn = _
    rw [drawn_apply, ih]
    split
    · rfl
    · rw [List.any_append, List.any_cons, List.any_nil, Bool.or_false]

/-- **The screen is its strokes** since the last reset. -/
theorem frame_run (hm : m.state.frame = .blank) (ops : List Operation) :
    (run m u ops).machine.state.frame =
      ((Moment.sinceReset (moments m u ops)).filterMap (·.stroke?)).foldl Stroke.on .blank := by
  induction ops using List.reverseRecOn with
  | nil => exact hm
  | append_singleton ops op ih =>
    rw [run_concat, moments_concat, Moment.sinceReset_concat, operation_moment]
    show (op.apply _ _).machine.state.frame = _
    rw [frame_apply, ih]
    by_cases hr : op = .reset
    · rw [if_pos hr, if_pos hr]
      rfl
    · rw [if_neg hr, if_neg hr, List.filterMap_append, List.foldl_append]
      cases hstroke : (op.moment (run m u ops).machine (run m u ops).supply).stroke? <;>
        simp [hstroke]

end Operation

/-- **A frame can be taken exactly while a draw is outstanding.** In every history of a new machine,
`takeFrame` gives a frame away exactly if some `00E0` or `DXYN` was executed since the last reset
and since a frame was last given away, whatever it changed. The frame is the one on the screen, and
that is what the strokes since the last reset leave, one after another; the stroke of a `DXYN`
changes over the cells that its sprite covers, by the registers and the memory that it found. Any
operation that takes no frame and resets nothing leaves the mark on if it is on, and puts it on
exactly if it executes `00E0` or `DXYN`. -/
theorem taken_while_outstanding (wrap : Wrap) (u : Supply) (ops : List Operation) :
    let m := (Operation.run (.new wrap) u ops).machine
    let ts := Operation.moments (.new wrap) u ops
    (m.takeFrame.1.isSome = true ↔ ∃ t ∈ Moment.outstanding ts, ∃ c ∈ t.reply.cycles,
      c.word = 0x00E0 ∨ c.word.nibble 3 = 0xD) ∧
    (∀ f, m.takeFrame.1 = some f → f = m.state.frame) ∧
    m.state.frame =
      ((Moment.sinceReset ts).filterMap (·.stroke?)).foldl Stroke.on .blank ∧
    (∀ t ∈ ts, ∀ c ∈ t.reply.cycles,
      (c.word = 0x00E0 → t.stroke? = some .clear) ∧
      (c.word.nibble 3 = 0xD → ∃ stroke, t.stroke? = some stroke ∧
        ∀ f cell, (stroke.on f).isLit cell ≠ f.isLit cell ↔
          Sprite.Covers t.machine.wrap (t.machine.state.v.get c.word.x).toNat
            (t.machine.state.v.get c.word.y).toNat
            (t.machine.state.memory.peek t.machine.state.index.toNat c.word.n.val).toList cell)) ∧
    ∀ (u' : Supply) (op : Operation), op ≠ .reset → op ≠ .takeFrame →
      ((op.apply m u').machine.state.drawn = true ↔ m.state.drawn = true ∨
        ∃ c ∈ (op.apply m u').reply.cycles, c.word = 0x00E0 ∨ c.word.nibble 3 = 0xD) := by
  intro m ts
  have htaken : m.takeFrame.1.isSome = m.state.drawn := by
    unfold Machine.takeFrame
    cases m.state.drawn <;> rfl
  refine ⟨?_, ?_, Operation.frame_run u rfl ops, fun t _ c hc => ⟨?_, ?_⟩, fun u' op hr ht => ?_⟩
  · rw [htaken, Operation.drawn_run u rfl ops, List.any_eq_true]
    exact exists_congr fun t => and_congr_right fun _ => Moment.isSome_stroke?_iff
  · intro f hf
    unfold Machine.takeFrame at hf
    split at hf
    · exact (Option.some.inj hf).symm
    · cases hf
  · intro hclear
    rw [Moment.stroke?_of_mem_cycles hc, hclear]
    exact Word.stroke?_clear _ _
  · intro hdraw
    rw [Moment.stroke?_of_mem_cycles hc]
    exact Word.stroke?_draw hdraw _ _
  · rw [Operation.drawn_apply_of_ne m u' hr ht, Bool.or_eq_true, Moment.isSome_stroke?_iff]
    rfl

/-- The glyph of a zero is drawn and taken, and then its first row is drawn over itself: one stroke
is outstanding, and what the strokes leave is the glyph without its first row. A tick leaves the
mark on. -/
theorem taken_while_outstanding_behind_taken_glyph :
    let ops : List Operation := [.load [0xD0, 0x05, 0xD0, 0x01], .step, .takeFrame, .step]
    let m := (Operation.run (.new .flat) (.ofSeed 1) ops).machine
    let ts := Operation.moments (.new .flat) (.ofSeed 1) ops
    (Operation.tick ≠ .reset ∧ Operation.tick ≠ .takeFrame) ∧
      ((Moment.outstanding ts).filterMap (·.stroke?)).length = 1 ∧
      (∃ f, m.takeFrame.1 = some f ∧
        f = ((Moment.sinceReset ts).filterMap (·.stroke?)).foldl Stroke.on .blank ∧
        f.isLit 0 = false ∧ f.isLit 64 = true) ∧
      (Operation.tick.apply m (.ofSeed 1)).machine.state.drawn = true := by
  intro ops
  have hne : Operation.tick ≠ .reset ∧ Operation.tick ≠ .takeFrame := ⟨nofun, nofun⟩
  have hone : ((Moment.outstanding (Operation.moments (.new .flat) (.ofSeed 1) ops)).filterMap
      (·.stroke?)).length = 1 := by decide +kernel
  obtain ⟨-, hframe, hfold, -, hmark⟩ := taken_while_outstanding .flat (.ofSeed 1) ops
  generalize hm : (Operation.run (.new .flat) (.ofSeed 1) ops).machine = m at hframe hfold hmark ⊢
  have hdrawn : m.state.drawn = true := by rw [← hm]; decide +kernel
  have hlit : m.state.frame.isLit 0 = false ∧ m.state.frame.isLit 64 = true := by
    rw [← hm]
    decide +kernel
  obtain ⟨f, hf⟩ : ∃ f, m.takeFrame.1 = some f := by simp [Machine.takeFrame, hdrawn]
  rw [← hframe f hf] at hfold hlit
  exact ⟨hne, hone, ⟨f, hf, hfold, hlit⟩, (hmark (.ofSeed 1) .tick hne.1 hne.2).2 (.inl hdrawn)⟩

end Chip8VM
