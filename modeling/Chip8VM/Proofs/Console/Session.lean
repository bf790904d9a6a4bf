import Chip8VM.Proofs.Console.Turn

/-!
# Sessions

A session begins with a start of the clocks that succeeds and goes on until the next one that does;
somewhere in between the clocks may be stopped. `Event.gather` adds up what happens in the course of
events, among it the steps that the instruction clock takes (`Event.steps`) and what the ticks of
the timers find (`Event.tones`). Once no thread ticks, a session goes on with calls alone
(`Event.idle_run`).
-/

set_option autoImplicit false

namespace Chip8VM

namespace Event

/-- Some of the events is a start of the clocks that succeeds. -/
def startsAgain (c : Console) : List Event → Bool
  | [] => false
  | e :: rest => e.starts c || startsAgain (e.apply c).2 rest

/-- What events add up to, `f` saying what an event adds to what it finds. -/
def gather {α : Type} (f : Console → Event → Option α) (c : Console) : List Event → List α
  | [] => []
  | e :: rest => (f c e).toList ++ gather f (e.apply c).2 rest

/-- The step that an event lets the machine take, with the counter at which it is taken. -/
def step? (c : Console) : Event → Option (Word × Step)
  | .instructionTick =>
    if c.isTicking && !c.poisoned then
      some (c.machine.state.pc, (c.machine.step c.supply).reply)
    else none
  | _ => none

/-- Whether the tone sounds for the tick of the timers that an event lets the machine have. -/
def tone? (c : Console) : Event → Option Bool
  | .timerTick => if c.isTicking && !c.poisoned then some c.machine.tick.1 else none
  | _ => none

/-- The steps that events let the machine take. -/
def steps (c : Console) (events : List Event) : List (Word × Step) := gather step? c events

/-- Whether the tone sounds, for each tick of the timers that events let the machine have. -/
def tones (c : Console) (events : List Event) : List Bool := gather tone? c events

theorem gather_append {α : Type} (f : Console → Event → Option α) (c : Console)
    (es fs : List Event) :
    gather f c (es ++ fs) = gather f c es ++ gather f (run c es).2 fs := by
  induction es generalizing c with
  | nil => rfl
  | cons e es ih => simp [gather, ih, run]

theorem startsAgain_append (c : Console) (es fs : List Event) :
    startsAgain c (es ++ fs) = (startsAgain c es || startsAgain (run c es).2 fs) := by
  induction es generalizing c with
  | nil => rfl
  | cons e es ih => simp [startsAgain, ih, run, Bool.or_assoc]

theorem startsAgain_cons_eq_false {c : Console} {e : Event} {es : List Event} :
    startsAgain c (e :: es) = false ↔
      e.starts c = false ∧ startsAgain (e.apply c).2 es = false := by
  simp [startsAgain]

/-- What every event but a start that succeeds keeps is kept up to the next such start. -/
theorem kept_run {P : Console → Prop} {c : Console} (h : Reachable c.machine) {events : List Event}
    (hs : startsAgain c events = false)
    (hP : ∀ (c : Console) (e : Event), Reachable c.machine → e.starts c = false → P c →
      P (e.apply c).2)
    (hc : P c) : P (run c events).2 := by
  induction events generalizing c with
  | nil => exact hc
  | cons e es ih =>
    obtain ⟨he, hs⟩ := startsAgain_cons_eq_false.1 hs
    exact ih (reachable_apply h e) hs (hP c e h he hc)

/-! ## Without a thread that ticks -/

section

variable {c : Console} (hi : c.isTicking = false)
include hi

theorem step?_of_idle (e : Event) : step? c e = none := by
  cases e <;> simp [step?, hi]

theorem tone?_of_idle (e : Event) : tone? c e = none := by
  cases e <;> simp [tone?, hi]

end

section

variable {c : Console} (h : Reachable c.machine) (hi : c.isTicking = false) {events : List Event}
  (hs : startsAgain c events = false)
include h hi hs

/-- What every event keeps while no thread ticks is kept up to the next start. -/
theorem idle_run {P : Console → Prop}
    (hP : ∀ (c : Console) (e : Event), Reachable c.machine → c.isTicking = false →
      e.starts c = false → P c → P (e.apply c).2)
    (hc : P c) : P (run c events).2 ∧ (run c events).2.isTicking = false := by
  refine kept_run (P := fun d => P d ∧ d.isTicking = false) h hs ?_ ⟨hc, hi⟩
  rintro d e hd he ⟨hp, hdi⟩
  exact ⟨hP d e hd hdi he hp, (turn hd e).isTicking_of_idle hdi he⟩

theorem isTicking_run_of_idle : (run c events).2.isTicking = false :=
  (idle_run h hi hs (P := fun _ => True) (fun _ _ _ _ _ _ => trivial) trivial).2

theorem gather_of_idle {α : Type} {f : Console → Event → Option α}
    (hf : ∀ {d : Console}, d.isTicking = false → ∀ e, f d e = none) : gather f c events = [] := by
  induction events generalizing c with
  | nil => rfl
  | cons e es ih =>
    obtain ⟨hse, hs⟩ := startsAgain_cons_eq_false.1 hs
    rw [gather, hf hi, ih (reachable_apply h e) ((turn h e).isTicking_of_idle hi hse) hs]
    rfl

end

end Event

/-- The clocks of a console from a start that succeeded on, and before another one that does. -/
structure Session (config : Config) (buzzer : Buzzer) (u : Supply) where
  /-- What had happened before the start. -/
  past : List Event
  /-- What has happened since. -/
  events : List Event
  starts : (Event.run (.new config buzzer u) past).2.start.1 = .ok ()
  alone : Event.startsAgain (Event.run (.new config buzzer u) past).2.start.2 events = false

namespace Session

variable {config : Config} {buzzer : Buzzer} {u : Supply} (s : Session config buzzer u)

/-- The console when the clocks had just been started. -/
def opening : Console := (Event.run (.new config buzzer u) s.past).2.start.2

/-- The console after all that has happened. -/
def now : Console := (Event.run s.opening s.events).2

/-- All that has happened since the console was new. -/
def life : List Event := s.past ++ .call .start :: s.events

/-- The steps that the instruction clock took. -/
def steps : List (Word × Step) := Event.steps s.opening s.events

/-- Whether the tone sounded, for each tick of the timers. -/
def tones : List Bool := Event.tones s.opening s.events

theorem run_life : (Event.run (.new config buzzer u) s.life).2 = s.now := by
  rw [life, Event.run_append]
  rfl

theorem reachable_opening : Reachable s.opening.machine :=
  Event.reachable_apply (Event.reachable_run config buzzer u s.past) (.call .start)

theorem reachable_now : Reachable s.now.machine :=
  Event.reachable_run_of s.reachable_opening s.events

theorem opening_eq :
    s.opening = { (Event.run (.new config buzzer u) s.past).2 with clock := some .fresh } := by
  obtain ⟨-, -, hs⟩ | ⟨hok, -⟩ := (Event.run (.new config buzzer u) s.past).2.start_cases
  · rw [opening, hs]
  · rw [s.starts] at hok
    cases hok

theorem clock_opening : s.opening.clock = some .fresh := by
  rw [opening_eq]

theorem config_opening : s.opening.config = config := by
  rw [opening_eq]
  exact Event.config_run (.new config.wrap) s.past

theorem breaksAt_opening : s.opening.buzzer.breaksAt = buzzer.breaksAt := by
  rw [opening_eq]
  exact Event.breaksAt_run (c := .new config buzzer u) (.new config.wrap) s.past

end Session

end Chip8VM
