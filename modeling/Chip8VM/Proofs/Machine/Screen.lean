import Chip8VM.Proofs.Machine.Change
import Chip8VM.Proofs.Machine.Inbox

/-!
# What a renderer shows

`takeFrame` gives the frame away if the screen was drawn on since it was last given away. A renderer
that only takes frames shows the one it took last (`Renderer.latest`). Drawing marks the screen, so
that there is a frame to take; but a reset blanks the screen and takes the mark off it too, and the
renderer misses that (`Renderer.missed`). `Machine.Shows` is the invariant that accounts for both:
while there is nothing to take, the screen is blank if the renderer missed a reset, and what was
taken last otherwise.
-/

set_option autoImplicit false

namespace Chip8VM

/-- One that knows of the screen only by taking frames. -/
structure Renderer where
  /-- The frame it took last, blank if it has taken none. -/
  latest : Frame
  /-- Whether the machine was reset since. -/
  missed : Bool

namespace Renderer

/-- A renderer that has taken no frame yet. -/
def new : Renderer := ⟨.blank, false⟩

/-- The renderer after something that may have given a frame away or reset the machine. -/
def after (r : Renderer) (taken : Option Frame) (reset : Bool) : Renderer :=
  match taken with
  | some f => ⟨f, false⟩
  | none => ⟨r.latest, r.missed || reset⟩

/-- What is on the screen while there is no frame to take. -/
def screen (r : Renderer) : Frame := if r.missed then .blank else r.latest

/-- A renderer is up to date unless it missed a reset and has not shown a blank screen before. -/
theorem screen_eq_latest_iff (r : Renderer) :
    r.screen = r.latest ↔ (r.missed = true → r.latest = .blank) := by
  unfold screen
  cases r.missed with
  | true => simp [eq_comm]
  | false => simp

theorem after_none_false (r : Renderer) : r.after none false = r := by
  rw [after, Bool.or_false]

theorem screen_after_reset (r : Renderer) : (r.after none true).screen = .blank := by
  rw [after, Bool.or_true]
  rfl

end Renderer

namespace Operation

/-- The frame that an entry of a journal gave away, if it gave one away. -/
def taken : Operation × Reply → Option Frame
  | (.takeFrame, .frame f) => f
  | _ => none

/-- The renderer after an entry of a journal. -/
def watch (r : Renderer) (entry : Operation × Reply) : Renderer :=
  r.after (taken entry) (entry.1 = .reset)

/-- A renderer that was there from the beginning of a history. -/
def renderer (m : Machine) (u : Supply) (ops : List Operation) : Renderer :=
  (journal m u ops).foldl watch .new

theorem taken_of_ne {op : Operation} (h : op ≠ .takeFrame) (reply : Reply) :
    taken (op, reply) = none := by
  cases op with
  | takeFrame => exact absurd rfl h
  | _ => rfl

theorem watch_of_ne {op : Operation} (hr : op ≠ .reset) (ht : op ≠ .takeFrame) (reply : Reply)
    (r : Renderer) : watch r (op, reply) = r := by
  rw [watch, taken_of_ne ht, decide_eq_false hr, Renderer.after_none_false]

/-- An operation that is neither a reset nor takes a frame adds nothing to a reset. -/
theorem foldl_watch_reset (m : Machine) (u : Supply) {op : Operation} (hr : op ≠ .reset)
    (ht : op ≠ .takeFrame) (r : Renderer) :
    (journal m u [.reset, op]).foldl watch r = r.after none true :=
  watch_of_ne hr ht _ _

end Operation

/-- The screen is what the renderer's history makes it, unless there is a frame to take. -/
def Machine.Shows (m : Machine) (r : Renderer) : Prop :=
  m.state.drawn = false → m.state.frame = r.screen

/-! ## One operation -/

/-- An instruction that draws marks the screen, the others touch neither it nor the mark. -/
theorem Instruction.effect_screen (wrap : Wrap) (byte : UInt8) (s : State) (i : Instruction) :
    (i.effect wrap byte s).drawn = true ∨
      (i.effect wrap byte s).drawn = s.drawn ∧ (i.effect wrap byte s).frame = s.frame := by
  cases i with
  | clear | draw => exact .inl rfl
  | _ => simp only [effect, State.setV, State.setFlagged, State.moveIndex, and_self, or_true]

namespace Machine

variable {m : Machine} {r : Renderer}

theorem shows_new (wrap : Wrap) : (Machine.new wrap).Shows .new := fun _ => rfl

theorem takeFrame_eq_none_iff : m.takeFrame.1 = none ↔ m.state.drawn = false := by
  unfold takeFrame
  cases m.state.drawn <;> simp

theorem shows_step (h : m.Shows r) (u : Supply) : (m.step u).machine.Shows r := by
  have ho := m.step_outcome u
  generalize m.step u = a at ho ⊢
  cases ho with
  | @executed i =>
    -- An instruction after which the screen is unmarked did not draw on it.
    intro hd
    rcases i.effect_screen m.wrap u.peek m.state with hmarked | ⟨hdrawn, hframe⟩
    · exact absurd (hmarked.symm.trans hd) Bool.noConfusion
    · exact hframe.trans (h (hdrawn.symm.trans hd))
  | _ => exact h

theorem shows_takeFrame (h : m.Shows r) : m.takeFrame.2.Shows (r.after m.takeFrame.1 false) := by
  unfold takeFrame
  split
  · exact fun _ => rfl
  · rw [Renderer.after_none_false]
    exact h

end Machine

namespace Operation

theorem shows_apply {m : Machine} {r : Renderer} (h : m.Shows r) (u : Supply) (op : Operation) :
    (op.apply m u).machine.Shows (watch r (op, (op.apply m u).reply)) := by
  by_cases hs : op = .step
  · subst hs
    rw [watch_of_ne (by simp) (by simp)]
    exact Machine.shows_step h u
  by_cases ht : op = .takeFrame
  · subst ht
    exact Machine.shows_takeFrame h
  by_cases hr : op = .reset
  · subst hr
    exact fun _ => r.screen_after_reset.symm
  rw [watch_of_ne hr ht]
  -- None of the others changes the screen or its mark.
  have hc := change m u hs
  generalize (op.apply m u).machine = m' at hc ⊢
  cases hc with
  | reset => exact absurd rfl hr
  | takeFrame => exact absurd rfl ht
  | _ => exact h

/-! ## A history -/

/-- **The screen follows from what the renderer took and missed**, unless there is a frame to
take. -/
theorem shows_run {m : Machine} {r : Renderer} (h : m.Shows r) (u : Supply)
    (ops : List Operation) : (run m u ops).machine.Shows ((journal m u ops).foldl watch r) := by
  induction ops generalizing m u r with
  | nil => exact h
  | cons op ops ih => exact ih (shows_apply h u op) _

end Operation

/-- **A reset goes unnoticed** by a renderer that only takes frames: it is not given the blank
screen, and goes on showing what it took before. -/
theorem reset_goes_unnoticed :
    let ops : List Operation := [.load [0xD0, 0x05], .step, .takeFrame, .reset]
    let m := (Operation.run (.new .flat) (.ofSeed 1) ops).machine
    m.takeFrame.1 = none ∧
      m.state.frame ≠ (Operation.renderer (.new .flat) (.ofSeed 1) ops).latest := by
  intro ops m
  have hlit : (Operation.renderer (.new .flat) (.ofSeed 1) ops).latest.isLit 0 = true := by
    decide +kernel
  refine ⟨Machine.takeFrame_eq_none_iff.2 rfl, fun h => ?_⟩
  rw [← h] at hlit
  exact absurd hlit (by decide)

end Chip8VM
