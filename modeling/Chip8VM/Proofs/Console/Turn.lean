import Chip8VM.Proofs.Console.Core
import Chip8VM.Proofs.Machine.Bounds

/-!
# What an event makes of a console

`Turn c e c'` lists the turns that an event can give to a console: which of its parts change, and
into what. A property of the clocks, the buzzer or the alarms is proved by cases on it
(`Event.turn`), and then by induction for a life, which `Event.run_append` takes apart. What becomes
of the machine is not said here but in `Event.core_apply`.
-/

set_option autoImplicit false

namespace Chip8VM

namespace Console

/-! ## Telling the buzzer -/

/-- The buzzer would break down if it were told something now. -/
def fails (c : Console) : Bool := !c.config.muted && c.buzzer.breaksAt c.buzzer.calls.length

/-- The console once the buzzer was told some tones, which a muted one is not. -/
def tellAll (c : Console) (tones : List Bool) : Console :=
  { c with
    buzzer := { c.buzzer with calls := c.buzzer.calls ++ if c.config.muted then [] else tones } }

@[simp] theorem tellAll_nil (c : Console) : c.tellAll [] = c := by
  simp [tellAll]

theorem tell_eq (c : Console) (active : Bool) : c.tell active = (c.fails, c.tellAll [active]) := by
  unfold tell fails tellAll
  cases c.config.muted <;> simp [Buzzer.setTone]

end Console

/-- The tones that a thread has to tell the buzzer of before it is gone. -/
def ClockThread.farewell (t : ClockThread) : List Bool := if t.sounding then [false] else []

/-- The thread once it is gone, by itself or because it died. -/
def ClockThread.gone (t : ClockThread) (died : Bool) : ClockThread :=
  { t with health := if died then .died else .ended }

@[simp] theorem ClockThread.health_gone (t : ClockThread) (died : Bool) :
    (t.gone died).health ≠ .ticking := by
  cases died <;> simp [gone]

namespace Console

variable (c : Console) (t : ClockThread)

theorem endThread_eq : c.endThread t =
    { c.tellAll t.farewell with clock := some (t.gone (t.sounding && c.fails)) } := by
  unfold endThread ClockThread.farewell
  cases ht : t.sounding with
  | true => simp [tell_eq, ClockThread.gone, ht]
  | false => simp [ClockThread.gone, ht]

/-- The thread turns out to have died when the clocks are stopped now. -/
def loses : Bool :=
  if t.health = .ticking then t.sounding && c.fails else decide (t.health = .died)

theorem joinThread_eq : c.joinThread t = (c.loses t,
    { c.tellAll (if t.health = .ticking then t.farewell else []) with clock := none }) := by
  unfold joinThread loses
  cases h : t.health with
  | ticking =>
    simp only [endThread_eq]
    cases t.sounding && c.fails <;> simp [ClockThread.gone]
  | _ => simp

theorem stop_of_none (h : c.clock = none) : c.stop = (.ok (), c) := by
  simp [stop, h]

theorem stop_of_some {t : ClockThread} (h : c.clock = some t) : c.stop =
    (if c.loses t then .error .clockDied else .ok (),
      { c.tellAll (if t.health = .ticking then t.farewell else []) with
        clock := none
        alarms := c.alarms ++
          if c.loses t then [⟨.error, "clock thread panicked"⟩] else [] }) := by
  simp only [stop, h, joinThread_eq]
  cases c.loses t <;> simp [alarm, tellAll]

theorem noteTone_eq (sounding : Bool) : c.noteTone t sounding =
    { c.tellAll (if sounding = t.sounding then [] else [sounding]) with
      clock := some (
        if sounding = t.sounding then t
        else if c.fails then { t with health := .died }
        else { t with sounding }) } := by
  unfold noteTone
  by_cases h : sounding = t.sounding
  · simp [h]
  · simp only [h, if_false, tell_eq]
    cases c.fails <;> simp

end Console

/-! ## Noting a step -/

/-- Where a step failed that was taken at a counter, if it failed. -/
def Step.failedAt (pc : Word) : Step → Option Word
  | .failed _ => some pc
  | _ => none

/-- What the thread logs of a step that was taken at a counter. -/
def ClockThread.warning (t : ClockThread) (pc : Word) : Step → List Log.Record
  | .failed f => if t.faultedAt = some pc then [] else [⟨.warn, f.message⟩]
  | _ => []

theorem Console.noteStep_eq (c : Console) (t : ClockThread) (pc : Word) {s : Step}
    (h : ∀ trap, s ≠ .trapped trap) :
    c.noteStep t pc s =
      { c with
        alarms := c.alarms ++ t.warning pc s
        clock := some { t with faultedAt := s.failedAt pc } } := by
  cases s with
  | trapped trap => exact absurd rfl (h trap)
  | failed f =>
    simp only [noteStep, ClockThread.warning, Step.failedAt, alarm]
    split <;> simp
  | _ => simp [noteStep, ClockThread.warning, Step.failedAt]

/-! ## The turns -/

namespace Event

/-- A clock ticks. -/
def isTick : Event → Bool
  | .instructionTick | .timerTick => true
  | .call _ => false

/-- Somebody stops the clocks. -/
def stops : Event → Bool
  | .call .stop | .call .close => true
  | _ => false

/-- The clocks are started, and that succeeds. -/
def starts (c : Console) : Event → Bool
  | .call .start => c.start.1.isOk
  | _ => false

end Event

/-- A call that is neither about the clocks nor breaks the lock. -/
def Call.isPlain : Call → Bool
  | .start | .stop | .close | .poison => false
  | _ => true

/-- The turns that an event can give to a console. -/
inductive Turn (c : Console) : Event → Console → Prop
  | idle {e : Event} : e.isTick = true → c.isTicking = false → Turn c e c
  | plain {k : Call} (m : Machine) : k.isPlain = true → Turn c (.call k) { c with machine := m }
  | poisoned : Turn c (.call .poison) { c with poisoned := true }
  | started : c.clock = none → c.config.validate = .ok () →
      Turn c (.call .start) { c with clock := some .fresh }
  | refused : c.start.1.isOk = false → Turn c (.call .start) c
  | still {e : Event} : e.stops = true → c.clock = none → Turn c e c
  | stopped {e : Event} {t : ClockThread} (errors : List Log.Record) : e.stops = true →
      c.clock = some t → (∀ r ∈ errors, r.level = .error) →
      Turn c e { c.tellAll (if t.health = .ticking then t.farewell else []) with
        clock := none, alarms := c.alarms ++ errors }
  | gaveUp {e : Event} {t : ClockThread} (text : String) : e.isTick = true → c.clock = some t →
      t.health = .ticking → c.poisoned = true →
      Turn c e { c.tellAll t.farewell with
        clock := some (t.gone (t.sounding && c.fails))
        alarms := c.alarms ++ [⟨.error, text⟩] }
  | stepped {t : ClockThread} : c.clock = some t → t.health = .ticking → c.poisoned = false →
      Turn c .instructionTick
        { c with
          machine := (c.machine.step c.supply).machine
          supply := (c.machine.step c.supply).supply
          alarms := c.alarms ++ t.warning c.machine.state.pc (c.machine.step c.supply).reply
          clock := some { t with
            faultedAt := (c.machine.step c.supply).reply.failedAt c.machine.state.pc } }
  | ticked {t : ClockThread} : c.clock = some t → t.health = .ticking → c.poisoned = false →
      Turn c .timerTick
        { c.tellAll (if c.machine.tick.1 = t.sounding then [] else [c.machine.tick.1]) with
          machine := c.machine.tick.2
          clock := some (
            if c.machine.tick.1 = t.sounding then t
            else if c.fails then { t with health := .died }
            else { t with sounding := c.machine.tick.1 }) }

namespace Console

variable {c : Console}

theorem isTicking_eq {t : ClockThread} (h : c.clock = some t) :
    c.isTicking = decide (t.health = .ticking) := by
  simp [isTicking, h]

theorem lock_of_free (h : c.poisoned = false) : c.lock = .ok c.machine := by
  simp [lock, h]

theorem lock_of_poisoned (h : c.poisoned = true) : c.lock = .error .poisoned := by
  simp [lock, h]

theorem exists_of_isTicking (h : c.isTicking = true) :
    ∃ t, c.clock = some t ∧ t.health = .ticking := by
  cases hc : c.clock with
  | none => simp [isTicking, hc] at h
  | some t =>
    rw [isTicking_eq hc] at h
    exact ⟨t, rfl, of_decide_eq_true h⟩

theorem whileTicking_of_idle (h : c.isTicking = false) (tick : Console → ClockThread → Console) :
    c.whileTicking tick = c := by
  unfold whileTicking
  cases hc : c.clock with
  | none => rfl
  | some t =>
    rw [isTicking_eq hc] at h
    simp only [decide_eq_false_iff_not] at h
    simp [h]

theorem whileTicking_of_ticking {t : ClockThread} (hc : c.clock = some t)
    (ht : t.health = .ticking) (tick : Console → ClockThread → Console) :
    c.whileTicking tick = tick c t := by
  simp [whileTicking, hc, ht]

theorem turn_giveUp {e : Event} {t : ClockThread} (he : e.isTick = true) (hc : c.clock = some t)
    (ht : t.health = .ticking) (hp : c.poisoned = true) : Turn c e (c.giveUp t) := by
  have h := Turn.gaveUp "machine state poisoned; stopping clocks" he hc ht hp
  unfold giveUp
  rw [endThread_eq]
  exact h

theorem turn_change {α : Type} {k : Call} (hk : k.isPlain = true) (f : Machine → α × Machine) :
    Turn c (.call k) (c.change f).2 := by
  unfold change
  cases c.lock with
  | error e => exact .plain c.machine hk
  | ok m => exact .plain (f m).2 hk

theorem turn_attempt {k : Call} (hk : k.isPlain = true) (f : Machine → Except Error Machine) :
    Turn c (.call k) (c.attempt f).2 := by
  unfold attempt
  cases c.lock.bind f with
  | error e => exact .plain c.machine hk
  | ok m => exact .plain m hk

theorem turn_resetThen {k : Call} (hk : k.isPlain = true)
    (prepare : Machine → Except Error Machine) : Turn c (.call k) (c.resetThen prepare).2 := by
  unfold resetThen
  cases c.config.validate.bind fun _ => c.lock with
  | error e => exact .plain c.machine hk
  | ok m =>
    cases h : prepare m.reset with
    | error e => simp only [h]; exact .plain m.reset hk
    | ok m' => simp only [h]; exact .plain m' hk

/-- A start succeeds if the clocks stand still and can run; otherwise it changes nothing. -/
theorem start_cases (c : Console) :
    c.clock = none ∧ c.config.validate = .ok () ∧
        c.start = (.ok (), { c with clock := some .fresh }) ∨
      c.start.1.isOk = false ∧ c.start.2 = c := by
  unfold start
  cases hc : c.clock with
  | some t => exact .inr (by simp [isRunning, hc, Except.isOk, Except.toBool])
  | none =>
    cases hv : c.config.validate with
    | error e => exact .inr (by simp [isRunning, hc, Except.isOk, Except.toBool])
    | ok => exact .inl (by simp [isRunning, hc])

theorem starts_of_standing (hc : c.clock = none) (hv : c.config.validate = .ok ()) :
    Event.starts c (.call .start) = true := by
  simp [Event.starts, start, isRunning, hc, hv, Except.isOk, Except.toBool]

theorem turn_start (c : Console) : Turn c (.call .start) c.start.2 := by
  obtain ⟨hc, hv, hs⟩ | ⟨hok, hs⟩ := c.start_cases
  · rw [hs]
    exact .started hc hv
  · rw [hs]
    exact .refused hok

theorem turn_stop (c : Console) {e : Event} (he : e.stops = true) : Turn c e c.stop.2 := by
  cases hc : c.clock with
  | none =>
    rw [stop_of_none c hc]
    exact .still he hc
  | some t =>
    rw [stop_of_some c hc]
    refine .stopped _ he hc fun r hr => ?_
    split at hr <;> simp_all

theorem turn_close (c : Console) : Turn c (.call .close) c.close := by
  unfold close
  cases hc : c.clock with
  | none =>
    rw [stop_of_none c hc]
    exact .still rfl hc
  | some t =>
    rw [stop_of_some c hc]
    cases c.loses t with
    | true =>
      -- The console logs one more error here than on a stop.
      have h := Turn.stopped (c := c) (e := .call .close)
        [⟨.error, "clock thread panicked"⟩,
          ⟨.error, s!"failed to stop clocks: {Error.clockDied.message}"⟩] rfl hc (by simp)
      simpa [alarm] using h
    | false => simpa using Turn.stopped (c := c) (e := .call .close) [] rfl hc (by simp)

end Console

/-- **What an event makes of a console** that is in a state that it can get into. -/
theorem Event.turn {c : Console} (h : Reachable c.machine) (e : Event) :
    Turn c e (e.apply c).2 := by
  cases e with
  | call k =>
    cases k with
    | boot | bootFrom => exact Console.turn_resetThen rfl _
    | start => exact c.turn_start
    | stop => exact c.turn_stop rfl
    | close => exact c.turn_close
    | pause | resume | takeFrame | subscribe => exact Console.turn_change rfl _
    | press | release => exact Console.turn_attempt rfl _
    | poison =>
      simp only [apply, Call.apply, Call.answer, Console.poison, Console.lock]
      cases hp : c.poisoned with
      | true =>
        have h := Turn.poisoned (c := c)
        rwa [← hp] at h
      | false => exact .poisoned
    | isRunning | isPaused | frame | toneActive | inspect => exact .plain c.machine rfl
    | receive | unsubscribe => exact .plain _ rfl
  | instructionTick =>
    simp only [apply, Console.instructionTick]
    cases hi : c.isTicking with
    | false =>
      rw [Console.whileTicking_of_idle hi]
      exact .idle rfl hi
    | true =>
      obtain ⟨t, hc, ht⟩ := Console.exists_of_isTicking hi
      rw [Console.whileTicking_of_ticking hc ht, Console.tickInstruction]
      obtain hp | hp := Bool.eq_false_or_eq_true c.poisoned
      · rw [Console.lock_of_poisoned hp]
        exact Console.turn_giveUp rfl hc ht hp
      · rw [Console.lock_of_free hp]
        have hnote := Console.noteStep_eq
          { c with
            machine := (c.machine.step c.supply).machine
            supply := (c.machine.step c.supply).supply }
          t c.machine.state.pc (h.step_ne_trapped c.supply)
        simp only [hnote]
        exact .stepped hc ht hp
  | timerTick =>
    simp only [apply, Console.timerTick]
    cases hi : c.isTicking with
    | false =>
      rw [Console.whileTicking_of_idle hi]
      exact .idle rfl hi
    | true =>
      obtain ⟨t, hc, ht⟩ := Console.exists_of_isTicking hi
      rw [Console.whileTicking_of_ticking hc ht, Console.tickTimer]
      obtain hp | hp := Bool.eq_false_or_eq_true c.poisoned
      · rw [Console.lock_of_poisoned hp]
        exact Console.turn_giveUp rfl hc ht hp
      · rw [Console.lock_of_free hp]
        simp only [Console.noteTone_eq]
        exact .ticked hc ht hp

/-! ## What a turn leaves alone -/

namespace Turn

variable {c c' : Console} {e : Event}

theorem config (h : Turn c e c') : c'.config = c.config := by
  cases h <;> rfl

theorem breaksAt (h : Turn c e c') : c'.buzzer.breaksAt = c.buzzer.breaksAt := by
  cases h <;> rfl

/-- Once no thread ticks any more it takes a start to change that. -/
theorem isTicking_of_idle (h : Turn c e c') (hi : c.isTicking = false) (hs : e.starts c = false) :
    c'.isTicking = false := by
  cases h with
  | started hc hv =>
    rw [Console.starts_of_standing hc hv] at hs
    cases hs
  | gaveUp _ _ hc ht | stepped hc ht | ticked hc ht =>
    simp [Console.isTicking_eq hc, ht] at hi
  | stopped => rfl
  | _ => exact hi

end Turn

/-! ## A life -/

namespace Event

theorem run_append (c : Console) (es fs : List Event) :
    (run c (es ++ fs)).2 = (run (run c es).2 fs).2 := by
  induction es generalizing c with
  | nil => rfl
  | cons e es ih => exact ih (e.apply c).2

variable {c : Console} (h : Reachable c.machine)
include h

theorem reachable_apply (e : Event) : Reachable (e.apply c).2.machine := by
  rw [machine_apply]
  exact h.run _ _

theorem reachable_run_of (es : List Event) : Reachable (run c es).2.machine := by
  rw [machine_run]
  exact h.run _ _

theorem config_run (es : List Event) : (run c es).2.config = c.config := by
  induction es generalizing c with
  | nil => rfl
  | cons e es ih => exact (ih (reachable_apply h e)).trans (turn h e).config

theorem breaksAt_run (es : List Event) : (run c es).2.buzzer.breaksAt = c.buzzer.breaksAt := by
  induction es generalizing c with
  | nil => rfl
  | cons e es ih => exact (ih (reachable_apply h e)).trans (turn h e).breaksAt

end Event

end Chip8VM
