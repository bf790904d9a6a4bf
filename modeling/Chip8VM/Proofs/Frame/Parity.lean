import Mathlib.Data.List.DropRight
import Mathlib.Data.List.Induction
import Chip8VM.Proofs.Frame.Views

/-!
# A frame is a parity map

All that ever happens to a frame is that a cell is toggled or the whole of it cleared. So a cell is
lit exactly if it was toggled an odd number of times since the frame was last cleared
(`Frame.Edit.isLit_run`), which is proved from the end of the history: the last edit starts the
count again, adds one to it or leaves it alone. What is said of the views of a frame in
`Chip8VM.Proofs.Frame.Views` is put beside it in `Frame.frame_is_parity_map`.
-/

set_option autoImplicit false

namespace Chip8VM.Frame

/-- What can be done to a frame. -/
inductive Edit where
  | toggle (c : Cell)
  | clear
deriving DecidableEq

namespace Edit

/-- The frame behind an edit. -/
def on (f : Frame) : Edit → Frame
  | .toggle c => (f.toggle c).2
  | .clear => .blank

/-- A toggle answers whether it turned a lit pixel off. -/
def reply (f : Frame) : Edit → Option Bool
  | .toggle c => some (f.toggle c).1
  | .clear => none

/-- Carries edits out one after another, and gathers what they answer. -/
def run (f : Frame) : List Edit → List (Option Bool) × Frame
  | [] => ([], f)
  | e :: rest => (e.reply f :: (run (e.on f) rest).1, (run (e.on f) rest).2)

/-- The edits behind the last one that cleared the frame. -/
def sinceClear (es : List Edit) : List Edit := es.rtakeWhile (· ≠ .clear)

/-- How often a cell was toggled since the frame was last cleared. -/
def timesToggled (c : Cell) (es : List Edit) : Nat := (sinceClear es).count (.toggle c)

/-! ## One edit more -/

theorem run_append (f : Frame) (es later : List Edit) :
    run f (es ++ later) =
      ((run f es).1 ++ (run (run f es).2 later).1, (run (run f es).2 later).2) := by
  induction es generalizing f with
  | nil => rfl
  | cons e es ih => simp only [List.cons_append, run, ih]

theorem length_replies (f : Frame) (es : List Edit) : (run f es).1.length = es.length := by
  induction es generalizing f with
  | nil => rfl
  | cons e es ih => simp only [run, List.length_cons, ih]

theorem timesToggled_clear (c : Cell) (es : List Edit) : timesToggled c (es ++ [.clear]) = 0 := by
  rw [timesToggled, sinceClear, List.rtakeWhile_concat_neg]
  · rfl
  · simp

theorem timesToggled_toggle (c d : Cell) (es : List Edit) :
    timesToggled c (es ++ [.toggle d]) = timesToggled c es + if d = c then 1 else 0 := by
  rw [timesToggled, sinceClear, List.rtakeWhile_concat_pos _ _ _ (by simp), List.count_append,
    List.count_singleton, timesToggled, sinceClear]
  by_cases hd : d = c <;> simp [hd]

/-! ## The frame left behind -/

/-- **A cell is lit** if it was toggled an odd number of times since the last clear. -/
theorem isLit_run (es : List Edit) (c : Cell) :
    (run .blank es).2.isLit c = decide (timesToggled c es % 2 = 1) := by
  induction es using List.reverseRecOn with
  | nil => exact isLit_blank c
  | append_singleton es e ih =>
    rw [run_append]
    cases e with
    | clear =>
      rw [timesToggled_clear]
      exact isLit_blank c
    | toggle d =>
      have hflip : (run (run .blank es).2 [.toggle d]).2.isLit c =
          if d = c then !(run .blank es).2.isLit c else (run .blank es).2.isLit c :=
        isLit_flip _ d c
      rw [hflip, timesToggled_toggle, ih]
      by_cases hd : d = c
      · rcases Nat.mod_two_eq_zero_or_one (timesToggled c es) with h | h <;>
          simp [hd, h, Nat.add_mod]
      · simp [hd]

/-- **A toggle answers** whether its cell was lit just before. -/
theorem reply_run (es later : List Edit) (c : Cell) :
    (run .blank (es ++ .toggle c :: later)).1[es.length]? =
      some (some ((run .blank es).2.isLit c)) := by
  have hlen : (run .blank es).1.length = es.length := length_replies _ es
  rw [run_append, List.getElem?_append_right (Nat.le_of_eq hlen), hlen, Nat.sub_self]
  rfl

end Edit

/-- **A frame is a parity map, and its views agree.** However a new frame is toggled and cleared, a
cell is lit exactly if it was toggled an odd number of times since the frame was last cleared, and
each toggle answers whether its cell was lit just before. Of every frame, the rows are its cells cut
every 64, and there are 32 of them; the pixel in column `x` of row `y` is the one that the rows have
there and that the cells have at `x + 64 * y`, and off the screen it is unlit. The number of lit
pixels is that of the places on the screen whose pixel is lit; it is 0 exactly for a new frame, and
no other is called clear. The text has 32 lines of 64 marks with a newline behind each. It is the
only text that is read as the frame, and so no other frame has it. -/
theorem frame_is_parity_map :
    (∀ (es : List Edit) (c : Cell),
      (Edit.run .blank es).2.isLit c = true ↔ Edit.timesToggled c es % 2 = 1) ∧
    (∀ (es later : List Edit) (c : Cell),
      (Edit.run .blank (es ++ .toggle c :: later)).1[es.length]? =
        some (some ((Edit.run .blank es).2.isLit c))) ∧
    ∀ f : Frame,
      (f.rowLists = f.cells.toList.toChunks 64 ∧ f.rowLists.length = 32 ∧
        ∀ row ∈ f.rowLists, row.length = 64) ∧
      (∀ x y, x < 64 ∧ y < 32 →
        (f.rowLists[y]?.bind fun row => row[x]?) = some (f.pixel x y) ∧
          f.cells.toList[x + 64 * y]? = some (f.pixel x y)) ∧
      (∀ x y, ¬ (x < 64 ∧ y < 32) → f.pixel x y = false) ∧
      f.lit = ((Finset.range 64 ×ˢ Finset.range 32).filter fun p =>
        f.pixel p.1 p.2 = true).card ∧
      ((f.isClear = true ↔ f.lit = 0) ∧ (f.lit = 0 ↔ f = .blank)) ∧
      f.text.toList = ((List.range 32).flatMap fun y =>
        ((List.range 64).map fun x => if f.pixel x y then '#' else '.') ++ ['\n']) ∧
      (∀ s, parse? s = some f ↔ s = f.text) ∧
      ∀ g : Frame, g.text = f.text → g = f := by
  refine ⟨fun es c => ?_, Edit.reply_run, fun f => ⟨⟨f.rowLists_eq_toChunks, f.length_rowLists,
    fun row => length_of_mem_rowLists⟩, ?_, fun x y => f.pixel_of_off, f.lit_eq_card,
    ⟨isClear_iff.trans lit_eq_zero_iff.symm, lit_eq_zero_iff⟩, f.toList_text,
    fun s => parse?_eq_some_iff, fun g => text_inj.1⟩⟩
  · rw [Edit.isLit_run, decide_eq_true_iff]
  · rintro x y ⟨hx, hy⟩
    exact ⟨f.getElem?_rowLists hx hy, f.getElem?_cells hx hy⟩

/-- A cell that was toggled before a clear is unlit, and column 64 of the first row is unlit
although cell 64 is lit. -/
theorem frame_is_parity_map_behind_clear :
    let es : List Edit := [.toggle 7, .clear, .toggle 64, .toggle 65]
    let f := (Edit.run .blank (es ++ [.toggle 65])).2
    (f.isLit 7 = false ∧ f.isLit 64 = true ∧ f.isLit 65 = false) ∧
      (Edit.run .blank (es ++ [.toggle 65])).1[4]? = some (some true) ∧
      (0 < 64 ∧ 1 < 32) ∧ f.cells.toList[0 + 64 * 1]? = some (f.pixel 0 1) ∧
      ¬ (64 < 64 ∧ 0 < 32) ∧ f.pixel 64 0 = false := by
  intro es f
  obtain ⟨hlit, hreply, hviews⟩ := frame_is_parity_map
  obtain ⟨-, hon, hoff, -⟩ := hviews f
  have hcells : ∀ c : Cell, f.isLit c = decide (Edit.timesToggled c (es ++ [.toggle 65]) % 2 = 1) :=
    fun c => Bool.eq_iff_iff.2 ((hlit _ c).trans decide_eq_true_iff.symm)
  have hbefore : (Edit.run .blank es).2.isLit 65 = true := (hlit es 65).2 (by decide)
  have hcollided := hreply es [] 65
  rw [hbefore] at hcollided
  refine ⟨⟨?_, ?_, ?_⟩, hcollided, ⟨by decide, by decide⟩, (hon 0 1 (by decide)).2, by decide,
    hoff 64 0 (by decide)⟩ <;> rw [hcells] <;> decide

end Chip8VM.Frame
