import Chip8VM.Proofs.Console.Lifecycle
import Chip8VM.Proofs.Machine.Apart

/-!
# A poisoned console

Once somebody died who held the machine, nobody can have it any more: every call that asks for it is
refused, and all that still happens to it is that observers read and leave (`Console.Sealed`). A
thread that is still there finds that out at its next tick, logs it and ends; in every session this
comes about once at most (`Console.WindsDown`). What an event makes of such a console is read off
its turn, but for what it logs, of which a turn does not give the text (`Event.count_surrender`).
-/

set_option autoImplicit false

namespace Chip8VM

/-- What a thread logs that cannot have the machine. -/
def ClockThread.surrender : Log.Record := ⟨.error, "machine state poisoned; stopping clocks"⟩

/-- The console once somebody died who held its machine. -/
def Console.lost (c : Console) : Console := { c with poisoned := true }

/-- A call asks for the machine before it does anything else. -/
def Call.locks : Call → Bool
  | .pause | .resume | .isPaused | .frame | .takeFrame | .press _ | .release _ | .toneActive
  | .subscribe _ | .inspect | .poison => true
  | _ => false

/-- How a console is refused a program whose machine cannot be had. The clocks are looked at
first. -/
def Config.refusal (config : Config) : Error :=
  if config.instructionHz = 0 ∨ config.timerHz = 0 then .clockRate 0 else .poisoned

namespace Event

/-- No thread that cannot have the machine goes on after the event. -/
def ends (e : Event) : Bool := e.isTick || e.stops

/-- The first of the events after which no thread goes on that cannot have the machine. -/
def ending? (events : List Event) : Option Event := events.find? ends

theorem ends_of_isTick {e : Event} (h : e.isTick = true) : e.ends = true := by
  rw [ends, h, Bool.true_or]

theorem ends_of_stops {e : Event} (h : e.stops = true) : e.ends = true := by
  rw [ends, h, Bool.or_true]

theorem ends_of_isPlain {k : Call} (h : k.isPlain = true) : (call k).ends = false := by
  rw [ends, stops_of_isPlain h]
  rfl

end Event

/-! ## Calls -/

namespace Console

variable {c : Console} (hp : c.poisoned = true)
include hp

theorem inspect_of_poisoned {α : Type} (look : Machine → α) :
    c.inspect look = .error .poisoned := by
  rw [inspect, lock_of_poisoned hp]
  rfl

theorem change_of_poisoned {α : Type} (f : Machine → α × Machine) :
    c.change f = (.error .poisoned, c) := by
  rw [change, lock_of_poisoned hp]

theorem attempt_of_poisoned (f : Machine → Except Error Machine) :
    c.attempt f = (.error .poisoned, c) := by
  rw [attempt, lock_of_poisoned hp]
  rfl

/-- Nothing is prepared, so nothing is read either. -/
theorem resetThen_of_poisoned (prepare : Machine → Except Error Machine) :
    c.resetThen prepare = (.error c.config.refusal, c) := by
  rw [resetThen, Config.validate_eq, lock_of_poisoned hp, Config.refusal]
  by_cases hz : c.config.instructionHz = 0 ∨ c.config.timerHz = 0 <;> simp [hz, Except.bind]

theorem apply_of_locks {k : Call} (hk : k.locks = true) :
    k.apply c = (.failed .poisoned, c) := by
  cases k with
  | boot | bootFrom | start | stop | close | isRunning | receive | unsubscribe => cases hk
  | pause | resume | takeFrame | subscribe =>
    simp only [Call.apply, Call.answer, pause, resume, takeFrame, subscribe, change_of_poisoned hp]
    rfl
  | press | release =>
    simp only [Call.apply, Call.answer, press, release, attempt_of_poisoned hp]
    rfl
  | isPaused | frame | toneActive | inspect =>
    simp only [Call.apply, Call.answer, isPaused, frame, toneActive, inspect_of_poisoned hp]
    rfl
  | poison =>
    simp only [Call.apply, Call.answer, poison, lock_of_poisoned hp]
    rfl

end Console

/-! ## The machine -/

/-- An observer reads or leaves. -/
def Operation.isFarewell : Operation → Bool
  | .receive _ | .unsubscribe _ => true
  | _ => false

theorem Operation.isOfAudience_of_isFarewell {op : Operation} (h : op.isFarewell = true) :
    op.isOfAudience = true := by
  cases op with
  | receive | unsubscribe => rfl
  | _ => cases h

namespace Event

variable {c : Console} (hp : c.poisoned = true)
include hp

theorem isFarewell_of_poisoned {e : Event} : ∀ op ∈ e.operations c, op.isFarewell = true := by
  intro op hop
  cases e with
  | instructionTick | timerTick => simp [operations, hp] at hop
  | call k =>
    cases k with
    | receive | unsubscribe =>
      rw [List.mem_singleton.1 hop]
      rfl
    | _ => simp [operations, Call.reaches, hp] at hop

theorem poisoned_apply (h : Reachable c.machine) (e : Event) : (e.apply c).2.poisoned = true := by
  rw [(turn h e).poisoned_eq, hp, Bool.true_or]

theorem history_of_poisoned (h : Reachable c.machine) (events : List Event) :
    ∀ op ∈ history c events, op.isFarewell = true := by
  induction events generalizing c with
  | nil => exact nofun
  | cons e es ih =>
    intro op hop
    rcases List.mem_append.1 hop with hop | hop
    · exact isFarewell_of_poisoned hp op hop
    · exact ih (poisoned_apply hp h e) (reachable_apply h e) op hop

theorem gather_of_poisoned {α : Type} {f : Console → Event → Option α}
    (hf : ∀ {d : Console}, d.poisoned = true → ∀ e, f d e = none) (h : Reachable c.machine)
    (events : List Event) : gather f c events = [] := by
  induction events generalizing c with
  | nil => rfl
  | cons e es ih =>
    rw [gather, hf hp, ih (poisoned_apply hp h e) (reachable_apply h e)]
    rfl

theorem step?_of_poisoned (e : Event) : step? c e = none := by
  cases e <;> simp [step?, hp]

theorem tone?_of_poisoned (e : Event) : tone? c e = none := by
  cases e <;> simp [tone?, hp]

end Event

/-! ## The log -/

namespace Console

variable {c : Console}

theorem alarms_giveUp (c : Console) (t : ClockThread) :
    (c.giveUp t).alarms = c.alarms ++ [ClockThread.surrender] := by
  rw [giveUp, endThread_eq]
  rfl

theorem apply_of_surrender {e : Event} (he : e.isTick = true) {t : ClockThread}
    (hc : c.clock = some t) (ht : t.health = .ticking) (hp : c.poisoned = true) :
    (e.apply c).2 = c.giveUp t := by
  cases e with
  | call k => cases he
  | instructionTick =>
    simp only [Event.apply, instructionTick, whileTicking_of_ticking hc ht, tickInstruction,
      lock_of_poisoned hp]
  | timerTick =>
    simp only [Event.apply, timerTick, whileTicking_of_ticking hc ht, tickTimer,
      lock_of_poisoned hp]

theorem count_surrender_stop (c : Console) :
    c.stop.2.alarms.count ClockThread.surrender = c.alarms.count ClockThread.surrender := by
  cases hc : c.clock with
  | none => rw [stop_of_none c hc]
  | some t =>
    rw [stop_of_some c hc, List.count_append]
    cases c.loses t <;> simp [ClockThread.surrender]

theorem count_surrender_close (c : Console) :
    c.close.alarms.count ClockThread.surrender = c.alarms.count ClockThread.surrender := by
  have hstop := c.count_surrender_stop
  have hother : ⟨.error, s!"failed to stop clocks: {Error.clockDied.message}"⟩ ≠
      ClockThread.surrender := by
    decide +kernel
  unfold close
  cases hc : c.clock with
  | none => rw [stop_of_none c hc]
  | some t =>
    rw [stop_of_some c hc] at hstop ⊢
    generalize c.loses t = lost at hstop ⊢
    cases lost with
    | false => exact hstop
    | true =>
      change List.count _ (_ ++ [_]) = _
      rw [List.count_append, List.count_singleton, beq_false_of_ne hother]
      exact hstop

end Console

/-- **A surrender is logged** by the ticks of a thread that cannot have its machine, and nowhere
else. -/
theorem Event.count_surrender {c : Console} (h : Reachable c.machine) (e : Event) :
    (e.apply c).2.alarms.count ClockThread.surrender =
      c.alarms.count ClockThread.surrender +
        if e.isTick && c.isTicking && c.poisoned then 1 else 0 := by
  have hturn := turn h e
  cases hs : e.stops with
  | true =>
    -- A turn that stops a thread may log something; what it logs is another text.
    have hstop : (e.apply c).2.alarms.count ClockThread.surrender =
        c.alarms.count ClockThread.surrender := by
      cases e with
      | call k =>
        cases k with
        | stop => exact c.count_surrender_stop
        | close => exact c.count_surrender_close
        | _ => cases hs
      | _ => cases hs
    have ht : e.isTick = false := by
      cases he : e.isTick with
      | false => rfl
      | true => rw [stops_of_isTick he] at hs; cases hs
    rw [hstop, ht]
    rfl
  | false =>
    by_cases hg : e.isTick = true ∧ c.isTicking = true ∧ c.poisoned = true
    · obtain ⟨he, hi, hp⟩ := hg
      obtain ⟨t, hc, ht⟩ := Console.exists_of_isTicking hi
      rw [Console.apply_of_surrender he hc ht hp, Console.alarms_giveUp, he, hi, hp]
      simp
    · have hsame : (e.isTick && c.isTicking && c.poisoned) = false := by
        rw [Bool.eq_false_iff]
        simpa [and_assoc] using hg
      rw [hsame]
      generalize (e.apply c).2 = c' at hturn
      cases hturn with
      | still he | stopped _ he => rw [hs] at he; cases he
      | gaveUp _ he hc ht hp =>
        exact absurd ⟨he, by rw [Console.isTicking_eq hc, ht]; rfl, hp⟩ hg
      | @stepped t hc ht hp =>
        have hwarn : (t.warning c.machine.state.pc (c.machine.step c.supply).reply).count
            ClockThread.surrender = 0 := by
          unfold ClockThread.warning
          split
          · split <;> simp [ClockThread.surrender]
          · rfl
        rw [List.count_append, hwarn]
        rfl
      | _ => rfl

/-! ## A thread that cannot have its machine -/

namespace Turn

variable {c c' : Console} {e : Event} (h : Turn c e c') (hp : c.poisoned = true)
  (hs : e.starts c = false)
include h hp hs

theorem of_poisoned :
    c'.isTicking = (c.isTicking && !e.ends) ∧ c'.tone = (c.tone && !e.ends) ∧
      c'.buzzer.calls = c.buzzer.calls ++
        if c.tone && e.ends && !c.config.muted then [false] else [] := by
  cases h with
  | idle he hi => simp [Event.ends_of_isTick he, hi, Console.tone_of_idle hi]
  | plain m hk => simp [Event.ends_of_isPlain hk, Console.isTicking, Console.tone]
  | poisoned => simp [Event.ends, Event.isTick, Event.stops, Console.isTicking, Console.tone]
  | started hc hv =>
    rw [Console.starts_of_standing hc hv] at hs
    cases hs
  | refused => simp [Event.ends, Event.isTick, Event.stops]
  | still he hc => simp [Event.ends_of_stops he, Console.isTicking, Console.tone, hc]
  | @stopped _ t _ he hc =>
    refine ⟨?_, ?_, ?_⟩
    · simp [Event.ends_of_stops he, Console.isTicking]
    · simp [Event.ends_of_stops he, Console.tone]
    · rw [Console.tone_eq hc, Event.ends_of_stops he, Console.tellAll, ClockThread.farewell]
      cases c.config.muted <;> cases t.sounding <;> by_cases ht : t.health = .ticking <;> simp [ht]
  | @gaveUp _ t _ he hc ht =>
    refine ⟨?_, ?_, ?_⟩
    · simp [Event.ends_of_isTick he, Console.isTicking]
    · simp [Event.ends_of_isTick he, Console.tone]
    · rw [Console.tone_eq hc, Event.ends_of_isTick he, Console.tellAll, ClockThread.farewell]
      cases c.config.muted <;> cases t.sounding <;> simp [ht]
  | stepped _ _ hfree | ticked _ _ hfree =>
    rw [hp] at hfree
    cases hfree

end Turn

/-- What becomes of a session, the console having been `c` at some moment when it was poisoned, and
`events` having happened since. -/
structure Console.WindsDown (c : Console) (events : List Event) (c' : Console) : Prop where
  /-- The machine is not driven any more. -/
  steps : Event.steps c events = []
  tones : Event.tones c events = []
  /-- A thread that is still there goes on to its next tick or to a stop. -/
  isTicking : c'.isTicking = (c.isTicking && (Event.ending? events).isNone)
  /-- A tick that comes before a stop is logged, and only the first. -/
  surrenders : c'.alarms.count ClockThread.surrender =
    c.alarms.count ClockThread.surrender +
      if c.isTicking && (Event.ending? events).any (·.isTick) then 1 else 0
  /-- Once the thread is gone the tone is off. -/
  calls : c'.buzzer.calls = c.buzzer.calls ++
    if c.tone && (Event.ending? events).isSome && !c.config.muted then [false] else []

theorem Event.ending?_cons (e : Event) (es : List Event) :
    ending? (e :: es) = if e.ends then some e else ending? es := by
  rw [ending?, List.find?_cons, ending?]
  cases e.ends <;> rfl

theorem Event.windsDown_run {c : Console} (h : Reachable c.machine) (hp : c.poisoned = true)
    {events : List Event} (hs : startsAgain c events = false) :
    c.WindsDown events (run c events).2 := by
  induction events generalizing c with
  | nil => constructor <;> simp [run, ending?, steps, tones, gather]
  | cons e es ih =>
    obtain ⟨hse, hs⟩ := startsAgain_cons_eq_false.1 hs
    obtain ⟨hticking, htone, hcalls⟩ := (turn h e).of_poisoned hp hse
    have hcount := count_surrender h e
    have hrest := ih (reachable_apply h e) (poisoned_apply hp h e) hs
    rw [hp, Bool.and_true] at hcount
    have hmuted : (e.apply c).2.config.muted = c.config.muted := by rw [(turn h e).config]
    refine ⟨gather_of_poisoned hp step?_of_poisoned h _,
      gather_of_poisoned hp tone?_of_poisoned h _, ?_, ?_, ?_⟩
    · refine hrest.isTicking.trans ?_
      rw [hticking, ending?_cons]
      cases e.ends <;> simp
    · refine hrest.surrenders.trans ?_
      rw [hcount, hticking, ending?_cons]
      cases he : e.ends with
      | true => cases c.isTicking <;> simp
      | false =>
        have ht : e.isTick = false := (Bool.or_eq_false_iff.1 he).1
        simp [ht]
    · refine hrest.calls.trans ?_
      rw [hcalls, htone, hmuted, ending?_cons]
      cases e.ends <;> simp

/-- A thread that surrenders is gone, so up to the next start there is no other surrender. -/
theorem Event.count_surrender_run {c : Console} (h : Reachable c.machine) {events : List Event}
    (hs : startsAgain c events = false) :
    (run c events).2.alarms.count ClockThread.surrender ≤
      c.alarms.count ClockThread.surrender + if c.isTicking then 1 else 0 := by
  induction events generalizing c with
  | nil => exact Nat.le_add_right _ _
  | cons e es ih =>
    obtain ⟨hse, hs⟩ := startsAgain_cons_eq_false.1 hs
    have hrest := ih (reachable_apply h e) hs
    have hcount := count_surrender h e
    cases hi : c.isTicking with
    | false =>
      rw [(turn h e).isTicking_of_idle hi hse] at hrest
      rw [hi, Bool.and_false, Bool.false_and] at hcount
      exact hcount ▸ hrest
    | true =>
      by_cases hg : e.isTick = true ∧ c.poisoned = true
      · -- The thread is gone, so `ih` leaves room for no other surrender.
        obtain ⟨he, hp⟩ := hg
        have hgone := ((turn h e).of_poisoned hp hse).1
        rw [ends_of_isTick he, Bool.not_true, Bool.and_false] at hgone
        rw [hgone] at hrest
        rw [he, hi, hp] at hcount
        exact hcount ▸ hrest
      · have hsame : (e.isTick && c.isTicking && c.poisoned) = false := by
          rw [Bool.eq_false_iff]
          simpa [hi] using hg
        rw [hsame] at hcount
        rw [hcount] at hrest
        refine Nat.le_trans hrest ?_
        cases (e.apply c).2.isTicking <;> simp

/-! ## A life -/

/-- What holds of a console that was `lost` when somebody died who held the machine, whatever events
have happened since. -/
structure Console.Sealed (config : Config) (lost : Console) (events : List Event) (c : Console) :
    Prop where
  poisoned : c.poisoned = true
  /-- Nothing happens to the machine but that observers read and leave. -/
  history : ∀ op ∈ Event.history lost events, op.isFarewell = true
  machine : c.machine = { lost.machine with observers := c.machine.observers }
  supply : c.supply = lost.supply
  /-- What observers have not read yet is theirs. -/
  unread : ∀ id, Operation.received id
        (Operation.journal lost.machine lost.supply (Event.history lost events)) ++
      (c.machine.observers.unread id).toList = (lost.machine.observers.unread id).toList
  /-- A call that asks for the machine is refused, whatever else is wrong with it. -/
  refused : ∀ k : Call, k.locks = true → k.apply c = (.failed .poisoned, c)
  inspect : ∀ {α : Type} (look : Machine → α), c.inspect look = .error .poisoned
  /-- A program is refused before it is looked at. -/
  boot : ∀ image, (Call.boot image).apply c = (.failed config.refusal, c)
  bootFrom : ∀ source, (Call.bootFrom source).apply c = (.failed config.refusal, c)
  unprepared : ∀ prepare : Machine → Except Error Machine,
    c.resetThen prepare = (.error config.refusal, c)

theorem Event.sealed_run {config : Config} {c : Console} (h : Reachable c.machine)
    (hc : c.config = config) (events : List Event) :
    Console.Sealed config c.lost events (run c.lost events).2 := by
  have hl : Reachable c.lost.machine := h
  have hp : (run c.lost events).2.poisoned = true := (poisoned_run hl events).2 (.inl rfl)
  have hfarewell := history_of_poisoned (c := c.lost) rfl hl events
  have hconfig : (run c.lost events).2.config = config := (config_run hl events).trans hc
  have hprepare := Console.resetThen_of_poisoned hp
  rw [hconfig] at hprepare
  obtain ⟨⟨os, hmachine⟩, hsupply⟩ := Operation.run_of_isOfAudience c.lost.machine c.lost.supply
    fun op hop => Operation.isOfAudience_of_isFarewell (hfarewell op hop)
  have hm : (run c.lost events).2.machine = { c.lost.machine with observers := os } :=
    (machine_run c.lost events).trans hmachine
  constructor
  case poisoned => exact hp
  case history => exact hfarewell
  case machine => rw [hm]
  case supply => exact (congrArg Prod.snd (core_run c.lost events)).trans hsupply
  case unread =>
    intro id
    have hstep : .step ∉ history c.lost events := fun hmem => by cases hfarewell _ hmem
    rw [machine_run]
    exact Operation.received_of_silent _ _ (Operation.completed_of_noStep _ _ hstep) id
  case refused => exact fun k hk => Console.apply_of_locks hp hk
  case inspect => exact Console.inspect_of_poisoned hp
  case boot => exact fun image => congrArg (Call.answer _) (hprepare (·.load image))
  case bootFrom => exact fun source => congrArg (Call.answer _) (hprepare (·.loadFrom source))
  case unprepared => exact hprepare

theorem Event.run_cons (c : Console) (e : Event) (es : List Event) :
    (run c (e :: es)).2 = (run (e.apply c).2 es).2 := rfl

theorem Console.apply_poison (c : Console) : ((Event.call .poison).apply c).2 = c.lost := by
  simp only [Event.apply, Call.apply, Call.answer, poison, lost]
  cases hp : c.poisoned with
  | true => rw [lock_of_poisoned hp, ← hp]
  | false => rw [lock_of_free hp]

theorem Session.windsDown_now {config : Config} {buzzer : Buzzer} {u : Supply}
    (s : Session config buzzer u) {before after : List Event} (h : s.events = before ++ after)
    (hp : .call .poison ∈ s.past ++ before) :
    Console.WindsDown (Event.run s.opening before).2 after s.now := by
  have hnew : Reachable (Console.new config buzzer u).machine := .new config.wrap
  have hreach := Event.reachable_run_of s.reachable_opening before
  have halone := s.alone
  rw [h, Event.startsAgain_append, Bool.or_eq_false_iff] at halone
  have hpoisoned : (Event.run s.opening before).2.poisoned = true := by
    rw [Event.poisoned_run s.reachable_opening, s.opening_eq]
    rcases List.mem_append.1 hp with hpast | hbefore
    · exact .inl ((Event.poisoned_run hnew s.past).2 (.inr hpast))
    · exact .inr hbefore
  have hdown := Event.windsDown_run hreach hpoisoned halone.2
  rwa [← Event.run_append, ← h] at hdown

theorem Session.stop_of_unbroken {config : Config} {buzzer : Buzzer} {u : Supply}
    (s : Session config buzzer u)
    (hb : s.now.stop.2.buzzer.brokeSince s.opening.buzzer.calls.length = false) :
    s.now.stop.1 = .ok () := by
  cases hc : s.now.clock with
  | none => rw [Console.stop_of_none _ hc]
  | some t => rw [s.accounts_now.stop hc, hb, if_neg Bool.false_ne_true]

/-- **Poison is absorbing.** Once somebody died who held the machine, whatever starts, stops, ticks
and calls follow: the machine stays as it was, but that observers read and leave, and every call
that asks for it is refused. In a session that runs then or begins later no step and no tick of the
timers is carried out; the first tick that comes before a stop is logged and ends the thread; when
the thread goes, a tone that sounded is turned off. A session logs this once at most, and a stop
fails only if the buzzer broke down in the session. -/
theorem poison_is_absorbing (config : Config) (buzzer : Buzzer) (u : Supply) :
    (∀ past events : List Event,
      Console.Sealed config (Event.run (.new config buzzer u) past).2.lost events
        (Event.run (.new config buzzer u) (past ++ .call .poison :: events)).2) ∧
    (∀ (s : Session config buzzer u) (before after : List Event), s.events = before ++ after →
      .call .poison ∈ s.past ++ before →
      Console.WindsDown (Event.run s.opening before).2 after s.now) ∧
    ∀ s : Session config buzzer u,
      s.now.alarms.count ClockThread.surrender ≤
        s.opening.alarms.count ClockThread.surrender + 1 ∧
      (s.now.stop.2.buzzer.brokeSince s.opening.buzzer.calls.length = false →
        s.now.stop.1 = .ok ()) := by
  refine ⟨fun past events => ?_, fun s before after => s.windsDown_now, fun s =>
    ⟨?_, s.stop_of_unbroken⟩⟩
  · have hconfig := Event.config_run (c := .new config buzzer u) (.new config.wrap) past
    have hsealed := Event.sealed_run (Event.reachable_run config buzzer u past) hconfig events
    rw [Event.run_append, Event.run_cons, Console.apply_poison]
    exact hsealed
  · have hcount := Event.count_surrender_run s.reachable_opening s.alone
    rwa [s.isTicking_opening, if_pos rfl] at hcount

/-- Somebody dies while the tone sounds. -/
def Event.bereavement : List Event :=
  [.instructionTick, .instructionTick, .timerTick, .call .poison]

theorem Console.starts_booted :
    (Event.run (.new {} .recorder (.ofSeed 1))
      [.call (.boot [0x60, 0x05, 0xF0, 0x18, 0x12, 0x04])]).2.start.1 = .ok () := by
  decide +kernel

/-- A session in which the tone sounds while the machine is lost to a thread that dies. -/
def Session.bereaved : Session {} .recorder (.ofSeed 1) where
  past := [.call (.boot [0x60, 0x05, 0xF0, 0x18, 0x12, 0x04])]
  events := Event.bereavement ++ [.call (.press 0x10), .instructionTick, .timerTick]
  starts := Console.starts_booted
  alone := by decide +kernel

theorem poison_silences_the_tone :
    .call .poison ∈ Session.bereaved.past ++ Event.bereavement ∧
      Session.bereaved.now.isTicking = false ∧
      Session.bereaved.now.alarms.count ClockThread.surrender = 1 ∧
      Session.bereaved.now.buzzer.calls = [true, false] ∧
      Session.bereaved.now.stop.1 = .ok () := by
  obtain ⟨-, hdown, hsession⟩ := poison_is_absorbing {} .recorder (.ofSeed 1)
  have hmem : Event.call .poison ∈ Session.bereaved.past ++ Event.bereavement := by decide
  have h := hdown Session.bereaved _ [.call (.press 0x10), .instructionTick, .timerTick] rfl hmem
  have hlost : (Event.run Session.bereaved.opening Event.bereavement).2.isTicking = true ∧
      (Event.run Session.bereaved.opening Event.bereavement).2.tone = true ∧
      (Event.run Session.bereaved.opening Event.bereavement).2.config.muted = false ∧
      (Event.run Session.bereaved.opening Event.bereavement).2.alarms = [] ∧
      (Event.run Session.bereaved.opening Event.bereavement).2.buzzer.calls = [true] := by
    decide +kernel
  obtain ⟨hi, htone, hmuted, halarms, hcalls⟩ := hlost
  refine ⟨hmem, ?_, ?_, ?_, (hsession _).2 (by decide +kernel)⟩
  · rw [h.isTicking, hi]
    rfl
  · rw [h.surrenders, hi, halarms]
    rfl
  · rw [h.calls, htone, hmuted, hcalls]
    rfl

end Chip8VM
