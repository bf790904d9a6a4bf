import Mathlib.Data.List.Induction
import Chip8VM.Proofs.Console.Tone
import Chip8VM.Proofs.Machine.Audience

/-!
# Starting, stopping and breaking down

A console runs from a start that succeeds to the next stop, whether or not its thread still ticks
(`Event.isRunning_iff`). A stop says whether the buzzer broke down since the start: the thread keeps
an account of that (`Console.Accounts`, kept by every turn). A buzzer that breaks down takes the
thread with it and leaves the machine alone (`Turn.of_broken`), and without a thread that ticks the
machine goes through calls and nothing else (`Event.history_of_idle`). `Console.Orderly` puts
together what holds after every life.
-/

set_option autoImplicit false

namespace Chip8VM

/-! ## Running -/

namespace Event

variable {c : Console} {e : Event}

theorem stops_of_isTick (h : e.isTick = true) : e.stops = false := by
  cases e with
  | call k => cases h
  | _ => rfl

theorem starts_of_isTick (h : e.isTick = true) : e.starts c = false := by
  cases e with
  | call k => cases h
  | _ => rfl

theorem starts_of_stops (h : e.stops = true) : e.starts c = false := by
  cases e with
  | call k => cases k <;> first | rfl | cases h
  | _ => cases h

theorem stops_of_isPlain {k : Call} (h : k.isPlain = true) : (call k).stops = false := by
  cases k <;> first | rfl | cases h

theorem starts_of_isPlain {k : Call} (h : k.isPlain = true) : (call k).starts c = false := by
  cases k <;> first | rfl | cases h

theorem eq_start_of_starts (h : e.starts c = true) : e = .call .start ∧ c.start.1 = .ok () := by
  cases e with
  | call k =>
    cases k with
    | start =>
      obtain ⟨-, -, hs⟩ | ⟨hno, -⟩ := c.start_cases
      · exact ⟨rfl, by rw [hs]⟩
      · rw [starts, hno] at h
        cases h
    | _ => cases h
  | _ => cases h

end Event

namespace Turn

variable {c c' : Console} {e : Event}

theorem isRunning (h : Turn c e c') :
    c'.isRunning = (c.isRunning && !e.stops || e.starts c) := by
  cases h with
  | idle he => simp [Event.stops_of_isTick he, Event.starts_of_isTick he]
  | plain m hk => simp [Event.stops_of_isPlain hk, Event.starts_of_isPlain hk, Console.isRunning]
  | poisoned => simp [Event.stops, Event.starts, Console.isRunning]
  | started hc hv => simp [Console.starts_of_standing hc hv, Console.isRunning]
  | refused hok => simp [Event.stops, Event.starts, hok]
  | still he hc => simp [he, Event.starts_of_stops he, Console.isRunning, hc]
  | stopped _ he => simp [he, Event.starts_of_stops he, Console.isRunning]
  | gaveUp _ he hc =>
    simp [Event.stops_of_isTick he, Event.starts_of_isTick he, Console.isRunning, hc]
  | stepped hc | ticked hc => simp [Event.stops, Event.starts, Console.isRunning, hc]

end Turn

namespace Console

variable {c : Console}

theorem start_of_running (h : c.isRunning = true) : c.start = (.error .alreadyRunning, c) := by
  simp [start, h]

theorem starts_of_running (h : c.isRunning = true) (e : Event) : e.starts c = false := by
  rw [Bool.eq_false_iff]
  intro hs
  obtain ⟨-, hok⟩ := Event.eq_start_of_starts hs
  rw [start_of_running h] at hok
  cases hok

theorem reply_start (c : Console) :
    c.start.1 =
      if c.isRunning then .error .alreadyRunning
      else if c.config.instructionHz = 0 ∨ c.config.timerHz = 0 then .error (.clockRate 0)
      else .ok () := by
  unfold start
  rw [Config.validate_eq]
  cases c.isRunning with
  | true => rfl
  | false =>
    by_cases hz : c.config.instructionHz = 0 ∨ c.config.timerHz = 0 <;> simp [hz]

theorem start_of_refused (h : c.start.1 ≠ .ok ()) : c.start.2 = c := by
  obtain ⟨-, -, hs⟩ | ⟨-, hs⟩ := c.start_cases
  · rw [hs] at h
    exact absurd rfl h
  · exact hs

end Console

theorem Event.isRunning_run {c : Console} (h : Reachable c.machine) (hr : c.isRunning = true)
    {events : List Event} (hs : ∀ e ∈ events, e.stops = false) :
    (run c events).2.isRunning = true := by
  induction events generalizing c with
  | nil => exact hr
  | cons e es ih =>
    have he := (turn h e).isRunning
    rw [hr, hs e List.mem_cons_self] at he
    exact ih (reachable_apply h e) he fun e' he' => hs e' (.tail _ he')

namespace Session

variable {config : Config} {buzzer : Buzzer} {u : Supply} (s : Session config buzzer u)

/-- Nobody has stopped the clocks in the session. -/
def Unstopped : Prop := ∀ e ∈ s.events, e.stops = false

/-- The session with one more event that is not a start that succeeds. -/
def extend (e : Event) (h : e.starts s.now = false) : Session config buzzer u where
  past := s.past
  events := s.events ++ [e]
  starts := s.starts
  alone := by
    rw [Event.startsAgain_append]
    change (Event.startsAgain s.opening s.events || (e.starts s.now || false)) = false
    rw [h, Bool.or_false, Bool.or_false]
    exact s.alone

variable {s}

theorem Unstopped.extend (hs : s.Unstopped) {e : Event} (h : e.starts s.now = false)
    (he : e.stops = false) : (s.extend e h).Unstopped := by
  intro e' hmem
  rcases List.mem_append.1 hmem with hold | hnew
  · exact hs e' hold
  · rw [List.mem_singleton.1 hnew]
    exact he

theorem Unstopped.isRunning (hs : s.Unstopped) : s.now.isRunning = true := by
  refine Event.isRunning_run s.reachable_opening ?_ hs
  rw [Console.isRunning, clock_opening]
  rfl

end Session

/-- **A console runs** exactly if it is in a session in which nobody has stopped the clocks. -/
theorem Event.isRunning_iff (config : Config) (buzzer : Buzzer) (u : Supply)
    (life : List Event) :
    (run (.new config buzzer u) life).2.isRunning = true ↔
      ∃ s : Session config buzzer u, s.life = life ∧ s.Unstopped := by
  constructor
  · intro hr
    induction life using List.reverseRecOn with
    | nil => cases hr
    | append_singleton life e ih =>
      have hturn := (turn (reachable_run config buzzer u life) e).isRunning
      rw [run_append] at hr
      change (e.apply (run (.new config buzzer u) life).2).2.isRunning = true at hr
      rw [hturn, Bool.or_eq_true, Bool.and_eq_true, Bool.not_eq_true'] at hr
      rcases hr with ⟨hold, hstops⟩ | hstarts
      · obtain ⟨s, rfl, hs⟩ := ih hold
        rw [s.run_life] at hold
        have hnot := Console.starts_of_running hold e
        exact ⟨s.extend e hnot, by simp [Session.life, Session.extend], hs.extend hnot hstops⟩
      · obtain ⟨rfl, hok⟩ := eq_start_of_starts hstarts
        exact ⟨⟨life, [], hok, rfl⟩, rfl, List.forall_mem_nil _⟩
  · rintro ⟨s, rfl, hs⟩
    rw [s.run_life]
    exact hs.isRunning

/-! ## Breaking down -/

/-- The buzzer broke down in one of its calls, the first `n` of them apart. -/
def Buzzer.brokeSince (b : Buzzer) (n : Nat) : Bool :=
  (List.range b.calls.length).any fun k => decide (n ≤ k) && b.breaksAt k

theorem Buzzer.brokeSince_length (b : Buzzer) : b.brokeSince b.calls.length = false := by
  rw [brokeSince, List.any_eq_false]
  intro k hk
  have hlt : ¬ b.calls.length ≤ k := Nat.not_le_of_lt (List.mem_range.1 hk)
  simp [hlt]

namespace Console

variable {c : Console} {n : Nat}

theorem brokeSince_tellAll_singleton (hn : n ≤ c.buzzer.calls.length) (active : Bool) :
    (c.tellAll [active]).buzzer.brokeSince n = (c.buzzer.brokeSince n || c.fails) := by
  unfold tellAll fails Buzzer.brokeSince
  cases c.config.muted with
  | true => simp
  | false => simp [List.range_succ, hn]

theorem brokeSince_farewell (hn : n ≤ c.buzzer.calls.length) (t : ClockThread) :
    (c.tellAll t.farewell).buzzer.brokeSince n =
      (c.buzzer.brokeSince n || (t.sounding && c.fails)) := by
  unfold ClockThread.farewell
  cases t.sounding with
  | true => exact brokeSince_tellAll_singleton hn false
  | false => simp

theorem length_tellAll (c : Console) (tones : List Bool) :
    c.buzzer.calls.length ≤ (c.tellAll tones).buzzer.calls.length := by
  simp [tellAll]

/-- The thread died exactly if the buzzer broke down in a call that it made, `n` calls having been
made before. -/
structure Accounts (n : Nat) (c : Console) : Prop where
  past : n ≤ c.buzzer.calls.length
  died : ∀ t, c.clock = some t → decide (t.health = .died) = c.buzzer.brokeSince n

theorem Accounts.of_some (hn : n ≤ c.buzzer.calls.length) {t : ClockThread}
    (hc : c.clock = some t) (ht : decide (t.health = .died) = c.buzzer.brokeSince n) :
    c.Accounts n := by
  refine ⟨hn, fun t' hc' => ?_⟩
  rw [hc] at hc'
  cases hc'
  exact ht

theorem Accounts.of_ticking (h : Accounts n c) {t : ClockThread} (hc : c.clock = some t)
    (ht : t.health = .ticking) : c.buzzer.brokeSince n = false := by
  rw [← h.died t hc, ht]
  rfl

/-- A stop says what the account says. -/
theorem Accounts.stop (h : c.Accounts n) {t : ClockThread} (hc : c.clock = some t) :
    c.stop.1 = if c.stop.2.buzzer.brokeSince n then .error .clockDied else .ok () := by
  have hloses : c.loses t = c.stop.2.buzzer.brokeSince n := by
    rw [stop_of_some c hc, loses]
    by_cases ht : t.health = .ticking
    · simp only [ht, if_true]
      rw [brokeSince_farewell h.past, h.of_ticking hc ht, Bool.false_or]
    · simp only [ht, if_false, tellAll_nil]
      exact h.died t hc
  rw [← hloses, stop_of_some c hc]

end Console

/-- Every event but a start keeps the account. -/
theorem Turn.accounts {c c' : Console} {e : Event} {n : Nat} (h : Turn c e c')
    (ha : c.Accounts n) (hs : e.starts c = false) : c'.Accounts n := by
  cases h with
  | idle | refused | still => exact ha
  | plain | poisoned => exact ⟨ha.past, ha.died⟩
  | started hc hv =>
    rw [Console.starts_of_standing hc hv] at hs
    cases hs
  | stopped =>
    refine ⟨Nat.le_trans ha.past (c.length_tellAll _), fun t hnone => ?_⟩
    cases hnone
  | @gaveUp _ t text _ hc ht =>
    refine .of_some (Nat.le_trans ha.past (c.length_tellAll _)) rfl ?_
    have hbroke := Console.brokeSince_farewell ha.past t
    rw [ha.of_ticking hc ht, Bool.false_or] at hbroke
    refine Eq.trans ?_ hbroke.symm
    cases hg : t.sounding && c.fails <;> rfl
  | @stepped t hc ht => exact .of_some ha.past rfl (ha.died t hc)
  | @ticked t hc ht =>
    refine .of_some (Nat.le_trans ha.past (c.length_tellAll _)) rfl ?_
    by_cases hb : c.machine.tick.1 = t.sounding
    · simp only [hb, if_true, Console.tellAll_nil]
      exact ha.died t hc
    · have hbroke := Console.brokeSince_tellAll_singleton ha.past c.machine.tick.1
      rw [ha.of_ticking hc ht, Bool.false_or] at hbroke
      simp only [hb, if_false]
      refine Eq.trans ?_ hbroke.symm
      cases hf : c.fails <;> simp [ht]

theorem Session.accounts_now {config : Config} {buzzer : Buzzer} {u : Supply}
    (s : Session config buzzer u) : s.now.Accounts s.opening.buzzer.calls.length := by
  have hopening := Console.Accounts.of_some (Nat.le_refl _) s.clock_opening
    (s.opening.buzzer.brokeSince_length).symm
  exact Event.kept_run s.reachable_opening s.alone
    (fun c e hc he ha => (Event.turn hc e).accounts ha he) hopening

theorem Session.Unstopped.reply_stop {config : Config} {buzzer : Buzzer} {u : Supply}
    {s : Session config buzzer u} (hs : s.Unstopped) :
    s.now.stop.1 =
      if s.now.stop.2.buzzer.brokeSince s.opening.buzzer.calls.length then .error .clockDied
      else .ok () := by
  obtain ⟨t, hc⟩ := Option.isSome_iff_exists.1 hs.isRunning
  exact s.accounts_now.stop hc

/-! ## What a break down leaves alone -/

namespace Turn

variable {c c' : Console} {e : Event} (h : Turn c e c')
include h

theorem poisoned_eq : c'.poisoned = (c.poisoned || decide (e = .call .poison)) := by
  have hne : ∀ {e : Event}, e.isTick = true ∨ e.stops = true → e ≠ .call .poison := by
    rintro _ (he | he) rfl <;> cases he
  cases h with
  | idle he => simp [hne (.inl he)]
  | plain m hk =>
    have hk' : ∀ {k : Call}, k.isPlain = true → k ≠ .poison := by
      rintro _ hk rfl
      cases hk
    simp [hk' hk]
  | poisoned => simp
  | started | refused => simp
  | still he | stopped _ he => simp [hne (.inr he), Console.tellAll]
  | gaveUp _ he => simp [hne (.inl he), Console.tellAll]
  | stepped | ticked => simp [Console.tellAll]

/-- **A buzzer that breaks down** takes the thread with it and leaves the lock alone. -/
theorem of_broken (hb : c'.buzzer.brokeSince c.buzzer.calls.length = true) :
    c'.isTicking = false ∧ c'.poisoned = c.poisoned := by
  have hnot := c.buzzer.brokeSince_length
  cases h with
  | stopped => exact ⟨rfl, rfl⟩
  | gaveUp => exact ⟨by simp [Console.isTicking], rfl⟩
  | @ticked t hc ht =>
    refine ⟨?_, rfl⟩
    by_cases heq : c.machine.tick.1 = t.sounding
    · simp only [heq, if_true, Console.tellAll_nil] at hb
      rw [hnot] at hb
      cases hb
    · simp only [heq, if_false] at hb
      rw [Console.brokeSince_tellAll_singleton (Nat.le_refl _), hnot, Bool.false_or] at hb
      simp [Console.isTicking, heq, hb]
  | _ =>
    rw [hnot] at hb
    cases hb

end Turn

theorem Event.poisoned_run {c : Console} (h : Reachable c.machine) (events : List Event) :
    (run c events).2.poisoned = true ↔ c.poisoned = true ∨ .call .poison ∈ events := by
  induction events generalizing c with
  | nil => simp [run]
  | cons e es ih =>
    refine (ih (reachable_apply h e)).trans ?_
    rw [(turn h e).poisoned_eq, Bool.or_eq_true, decide_eq_true_eq, or_assoc, List.mem_cons,
      eq_comm (a := e)]

/-! ## Calls that have the machine -/

namespace Console

variable {c : Console}

theorem answer_attempt (hp : c.poisoned = false) (f : Machine → Except Error Machine) :
    Reply.ofExcept (fun _ => .done) (c.attempt f).1 =
      (Operation.settle c.machine c.supply (f c.machine)).reply := by
  rw [attempt, lock_of_free hp, Except.bind, Operation.settle]
  cases f c.machine <;> rfl

theorem answer_resetThen (h : (c.config.validate.isOk && !c.poisoned) = true)
    (prepare : Machine → Except Error Machine) :
    Reply.ofExcept (fun _ => .done) (c.resetThen prepare).1 =
      (Operation.settle c.machine.reset c.supply (prepare c.machine.reset)).reply := by
  rw [Bool.and_eq_true, Bool.not_eq_true'] at h
  obtain ⟨hv, hp⟩ := h
  rw [resetThen, lock_of_free hp, Operation.settle]
  cases hc : c.config.validate with
  | error e =>
    rw [hc] at hv
    cases hv
  | ok =>
    simp only [Except.bind]
    cases prepare c.machine.reset <;> rfl

end Console

namespace Call

/-- **A call that has the machine** answers what the machine does. -/
theorem reply_apply {c : Console} {k : Call} (hops : k.operations ≠ [])
    (hk : k.reaches c = true) :
    (Operation.run c.machine c.supply k.operations).reply.getLast? = some (k.apply c).1 := by
  have free : (!c.poisoned) = true → c.poisoned = false := Bool.not_eq_true' _ ▸ id
  cases k with
  | start | stop | close | isRunning | poison => exact absurd rfl hops
  | receive | unsubscribe => rfl
  | boot image =>
    have hreply := Console.answer_resetThen hk (·.load image)
    exact congrArg some hreply.symm
  | bootFrom source =>
    have hreply := Console.answer_resetThen hk (·.loadFrom source)
    exact congrArg some hreply.symm
  | press | release =>
    simp only [apply, answer, Console.press, Console.release, Console.answer_attempt (free hk)]
    rfl
  | pause | resume | takeFrame | subscribe =>
    simp only [apply, answer, Console.pause, Console.resume, Console.takeFrame,
      Console.subscribe, Console.reply_change, free hk]
    rfl
  | isPaused | frame | toneActive | inspect =>
    simp only [apply, answer, Console.isPaused, Console.frame, Console.toneActive,
      Console.inspect, Console.lock_of_free (free hk)]
    rfl

theorem step_notMem_operations (k : Call) : .step ∉ k.operations := by
  cases k <;> simp [operations]

end Call

/-! ## The machine without a thread that ticks -/

namespace Event

variable {c : Console}

theorem operations_of_idle (hi : c.isTicking = false) {e : Event} {op : Operation}
    (hop : op ∈ e.operations c) : ∃ k, e = .call k ∧ op ∈ k.operations := by
  cases e with
  | call k =>
    rw [operations] at hop
    split at hop
    · exact ⟨k, rfl, hop⟩
    · cases hop
  | _ =>
    rw [operations, hi] at hop
    cases hop

/-- **Without a thread that ticks** the machine goes through calls alone. -/
theorem history_of_idle (h : Reachable c.machine) (hi : c.isTicking = false)
    {events : List Event} (hs : startsAgain c events = false) {op : Operation}
    (hop : op ∈ history c events) : ∃ k, .call k ∈ events ∧ op ∈ k.operations := by
  induction events generalizing c with
  | nil => cases hop
  | cons e es ih =>
    obtain ⟨he, hs⟩ := startsAgain_cons_eq_false.1 hs
    rcases List.mem_append.1 hop with hop | hop
    · obtain ⟨k, rfl, hk⟩ := operations_of_idle hi hop
      exact ⟨k, List.mem_cons_self, hk⟩
    · obtain ⟨k, hk, hop⟩ :=
        ih (reachable_apply h e) ((turn h e).isTicking_of_idle hi he) hs hop
      exact ⟨k, .tail _ hk, hop⟩

/-- **Without a thread that ticks** no cycle comes to any observer. -/
theorem received_of_idle (h : Reachable c.machine) (hi : c.isTicking = false)
    {events : List Event} (hs : startsAgain c events = false) (id : Nat) :
    Operation.received id (Operation.journal c.machine c.supply (history c events)) ++
        ((run c events).2.machine.observers.unread id).toList =
      (c.machine.observers.unread id).toList := by
  have hstep : .step ∉ history c events := by
    intro hmem
    obtain ⟨k, -, hk⟩ := history_of_idle h hi hs hmem
    exact k.step_notMem_operations hk
  rw [machine_run]
  exact Operation.received_of_silent _ _ (Operation.completed_of_noStep _ _ hstep) id

end Event

/-! ## Ticks, and starting again -/

namespace Console

variable {c : Console}

theorem core_ticks (hi : c.isTicking = true) (hp : c.poisoned = false) :
    c.instructionTick.core = (Operation.step.apply c.machine c.supply).core ∧
      c.timerTick.core = (Operation.tick.apply c.machine c.supply).core := by
  have hstep := Event.core_apply c .instructionTick
  have htick := Event.core_apply c .timerTick
  simp only [Event.operations, hi, hp, Bool.not_false, Bool.and_self, if_true] at hstep htick
  exact ⟨hstep, htick⟩

theorem buzzer_timerTick (hi : c.isTicking = true) (hp : c.poisoned = false) :
    c.timerTick.buzzer =
      { c.buzzer with
        calls := c.buzzer.calls ++
          if c.config.muted ∨ c.machine.tick.1 = c.tone then [] else [c.machine.tick.1] } := by
  obtain ⟨t, hc, ht⟩ := exists_of_isTicking hi
  have htone : c.tone = t.sounding := by simp [tone_eq hc, ht]
  rw [timerTick, whileTicking_of_ticking hc ht, tickTimer, lock_of_free hp, htone]
  simp only [noteTone_eq, tellAll]
  cases c.config.muted <;> simp

theorem clock_stop (c : Console) : c.stop.2.clock = none := by
  cases hc : c.clock with
  | none => rw [stop_of_none c hc, hc]
  | some t => rw [stop_of_some c hc]

theorem stop_eq (c : Console) :
    c.stop.2 = { c with
      buzzer := { c.buzzer with
        calls := c.buzzer.calls ++ if c.tone && !c.config.muted then [false] else [] }
      clock := none
      alarms := c.stop.2.alarms } := by
  cases hc : c.clock with
  | none => simp [stop_of_none c hc, tone_of_none hc, ← hc]
  | some t =>
    simp only [stop_of_some c hc, tone_eq hc, tellAll, ClockThread.farewell]
    cases t.sounding <;> cases c.config.muted <;> by_cases ht : t.health = .ticking <;> simp [ht]

end Console

/-! ## Every life -/

/-- What holds of a console after a life, whatever has happened in it. -/
structure Console.Orderly (config : Config) (buzzer : Buzzer) (u : Supply) (life : List Event)
    (c : Console) : Prop where
  /-- It runs from a start that succeeds to the next stop. -/
  running : c.isRunning = true ↔ ∃ s : Session config buzzer u, s.life = life ∧ s.Unstopped
  start : c.start.1 =
    if c.isRunning then .error .alreadyRunning
    else if config.instructionHz = 0 ∨ config.timerHz = 0 then .error (.clockRate 0)
    else .ok ()
  /-- A start that fails changes nothing. -/
  refused : c.start.1 ≠ .ok () → c.start.2 = c
  stopped : c.stop.2.isRunning = false ∧ c.stop.2.stop = (.ok (), c.stop.2)
  standing : c.isRunning = false → c.stop = (.ok (), c)
  /-- A stop says whether the thread of the session died, be it of the stop itself. -/
  stop : ∀ s : Session config buzzer u, s.life = life → s.Unstopped →
    c.stop.1 =
      if c.stop.2.buzzer.brokeSince s.opening.buzzer.calls.length then .error .clockDied
      else .ok ()
  /-- Only somebody who dies while holding the machine poisons it. -/
  poisoned : c.poisoned = true ↔ .call .poison ∈ life
  /-- A call that can have the machine answers what the machine does. -/
  reply : ∀ k : Call, k.operations ≠ [] → k.reaches c = true →
    (Operation.run c.machine c.supply k.operations).reply.getLast? = some (k.apply c).1
  /-- A buzzer that breaks down takes the thread with it, and nothing else: what the event does to
  the machine is done by then. -/
  broken : ∀ e : Event, (e.apply c).2.buzzer.brokeSince c.buzzer.calls.length = true →
    (e.apply c).2.isTicking = false ∧ (e.apply c).2.poisoned = c.poisoned ∧
      (e.apply c).2.core = (Operation.run c.machine c.supply (e.operations c)).core
  /-- Without a thread that ticks, and up to the next start, the machine goes through calls alone
  and no cycle comes to any observer. -/
  idle : c.isTicking = false → ∀ events, Event.startsAgain c events = false →
    (Event.run c events).2.core =
        (Operation.run c.machine c.supply (Event.history c events)).core ∧
      (∀ op ∈ Event.history c events, ∃ k, .call k ∈ events ∧ op ∈ k.operations) ∧
      ∀ id, Operation.received id
            (Operation.journal c.machine c.supply (Event.history c events)) ++
          ((Event.run c events).2.machine.observers.unread id).toList =
        (c.machine.observers.unread id).toList
  /-- After a stop the clocks can be started again, with the same machine and the same buzzer. -/
  restart : config.validate = .ok () →
    c.stop.2.start = (.ok (), { c with
      buzzer := { c.buzzer with
        calls := c.buzzer.calls ++ if c.tone && !config.muted then [false] else [] }
      clock := some .fresh
      alarms := c.stop.2.alarms })
  /-- While a thread ticks, both clocks drive the machine and the buzzer is told of changes. -/
  ticks : c.isTicking = true → c.poisoned = false →
    c.instructionTick.core = (Operation.step.apply c.machine c.supply).core ∧
      c.timerTick.core = (Operation.tick.apply c.machine c.supply).core ∧
      c.timerTick.buzzer = { c.buzzer with
        calls := c.buzzer.calls ++
          if config.muted ∨ c.machine.tick.1 = c.tone then [] else [c.machine.tick.1] }

/-- **Every life is orderly.** Whatever starts, stops, ticks and calls make up the life of a
console, and in whichever calls its buzzer breaks down: it runs from a start to the next stop; a
start and a stop answer as they should; a buzzer that breaks down leaves the machine alone and can
be had again; and between a stop and the next start the machine changes through calls only. -/
theorem every_life_is_orderly (config : Config) (buzzer : Buzzer) (u : Supply)
    (life : List Event) :
    (Event.run (.new config buzzer u) life).2.Orderly config buzzer u life := by
  have hnew : Reachable (Console.new config buzzer u).machine := .new config.wrap
  have hr := Event.reachable_run config buzzer u life
  have hconfig : (Event.run (.new config buzzer u) life).2.config = config :=
    Event.config_run hnew life
  constructor
  case running => exact Event.isRunning_iff config buzzer u life
  case start =>
    rw [Console.reply_start, hconfig]
  case refused => exact Console.start_of_refused
  case stopped =>
    have hclock := (Event.run (.new config buzzer u) life).2.clock_stop
    exact ⟨by rw [Console.isRunning, hclock]; rfl, Console.stop_of_none _ hclock⟩
  case standing =>
    intro hnot
    exact Console.stop_of_none _ (Option.not_isSome_iff_eq_none.1 (Bool.eq_false_iff.1 hnot))
  case stop =>
    rintro s rfl hs
    rw [s.run_life]
    exact hs.reply_stop
  case poisoned =>
    rw [Event.poisoned_run hnew life]
    simp [Console.new]
  case reply => exact fun k => Call.reply_apply
  case broken =>
    intro e hb
    obtain ⟨hi, hp⟩ := (Event.turn hr e).of_broken hb
    exact ⟨hi, hp, Event.core_apply _ e⟩
  case idle =>
    intro hi events hs
    exact ⟨Event.core_run _ events, fun op hop => Event.history_of_idle hr hi hs hop,
      Event.received_of_idle hr hi hs⟩
  case restart =>
    intro hv
    have hstop := (Event.run (.new config buzzer u) life).2.stop_eq
    rw [hconfig] at hstop
    rw [hstop, Console.start]
    simp [Console.isRunning, hconfig, hv]
  case ticks =>
    intro hi hp
    obtain ⟨hstep, htick⟩ := Console.core_ticks hi hp
    have hbuzzer := Console.buzzer_timerTick hi hp
    rw [hconfig] at hbuzzer
    exact ⟨hstep, htick, hbuzzer⟩

/-- A console whose buzzer breaks down when the tone turns on. -/
def Session.breakingDown : Session {} .fragile (.ofSeed 1) where
  past := [.call (.boot [0x60, 0x05, 0xF0, 0x18, 0x12, 0x04])]
  events := [.instructionTick, .instructionTick, .timerTick, .call .isRunning, .timerTick]
  starts := by decide +kernel
  alone := by decide +kernel

theorem life_is_orderly_when_breaking_down :
    Session.breakingDown.now.isTicking = false ∧ Session.breakingDown.now.isRunning = true ∧
      Session.breakingDown.now.poisoned = false ∧
      Session.breakingDown.now.stop.1 = .error .clockDied ∧
      Session.breakingDown.now.stop.2.start.1 = .ok () := by
  have h := every_life_is_orderly {} .fragile (.ofSeed 1) Session.breakingDown.life
  rw [Session.run_life] at h
  have hidle : Session.breakingDown.now.isTicking = false := by decide +kernel
  have hopen : ∀ e ∈ Session.breakingDown.events, e.stops = false := by decide
  have hcalm : .call .poison ∉ Session.breakingDown.life := by decide
  have hbroke : Session.breakingDown.now.stop.2.buzzer.brokeSince
      Session.breakingDown.opening.buzzer.calls.length = true := by
    decide +kernel
  have hstop := h.stop _ rfl hopen
  simp only [hbroke, if_true] at hstop
  exact ⟨hidle, h.running.2 ⟨_, rfl, hopen⟩,
    Bool.eq_false_iff.2 fun hp => hcalm (h.poisoned.1 hp), hstop,
    congrArg Prod.fst (h.restart rfl)⟩

end Chip8VM
