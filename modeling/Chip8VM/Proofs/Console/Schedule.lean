import Chip8VM.Proofs.Console.Lifecycle
import Chip8VM.Proofs.Machine.Apart

/-!
# Schedules

What a console makes of its machine depends on nothing but the order of the ticks and calls that
reach it (`Event.deeds`). A machine of its own that serves these in the same order
(`Event.serve`) ends up the same and answers the same, so the rates of the clocks, the sessions, the
buzzer and the time between two deeds do not matter (`Schedule`). Observers that read and leave need
no hold of the machine; at which points they do so makes a difference to them alone
(`Event.serve_aside`).
-/

set_option autoImplicit false

namespace Chip8VM

/-- An operation brings a program. -/
def Operation.isLoad : Operation → Bool
  | .load _ | .loadFrom _ => true
  | _ => false

namespace Call

/-- A call is about the machine. -/
def isDeed : Call → Bool
  | .start | .stop | .close | .isRunning | .poison => false
  | _ => true

/-- An observer reads or leaves, without hold of the machine. -/
def isAside : Call → Bool
  | .receive _ | .unsubscribe _ => true
  | _ => false

theorem operations_ne_nil_iff (k : Call) : k.operations ≠ [] ↔ k.isDeed = true := by
  cases k <;> simp [operations, isDeed]

end Call

namespace Event

/-- An event reaches the machine, which a tick does while a thread ticks. -/
def reaches (c : Console) : Event → Bool
  | .call k => k.isDeed
  | _ => c.isTicking

/-- The ticks and calls that reach the machine, in the order in which they happen. -/
def deeds (c : Console) (events : List Event) : List Event :=
  gather (fun c e => if e.reaches c then some e else none) c events

/-- What a call answers that is about the machine. -/
def answer? (c : Console) : Event → Option (Call × Reply)
  | .call k => if k.isDeed then some (k, (k.apply c).1) else none
  | _ => none

/-- What the calls answer that is about the machine, in the order in which they are made. -/
def answers (c : Console) (events : List Event) : List (Call × Reply) := gather answer? c events

/-! ## A machine of its own -/

/-- The operations in which an event reaches a machine. -/
def bare : Event → List Operation
  | .instructionTick => [.step]
  | .timerTick => [.tick]
  | .call k => k.operations

/-- What a machine answers to a call, which is what it replies to the last of its operations. -/
def served? (m : Machine) (u : Supply) : Event → Option (Call × Reply)
  | .call k => (Operation.run m u k.operations).reply.getLast?.map (k, ·)
  | _ => none

/-- A machine of its own serves ticks and calls, one after another. -/
def serve (m : Machine) (u : Supply) : List Event → After (List (Call × Reply))
  | [] => ⟨[], m, u⟩
  | e :: rest =>
    let a := Operation.run m u e.bare
    let b := serve a.machine a.supply rest
    ⟨(served? m u e).toList ++ b.reply, b.machine, b.supply⟩

theorem core_serve (m : Machine) (u : Supply) (events : List Event) :
    (serve m u events).core = (Operation.run m u (events.flatMap bare)).core := by
  induction events generalizing m u with
  | nil => rfl
  | cons e es ih =>
    rw [List.flatMap_cons, Operation.run_append]
    exact ih _ _

end Event

/-- A console that can run, in which nobody has died who held the machine. -/
structure Console.Sound (c : Console) : Prop where
  reachable : Reachable c.machine
  valid : c.config.validate = .ok ()
  free : c.poisoned = false

namespace Console.Sound

variable {c : Console} (h : c.Sound)
include h

theorem apply {e : Event} (he : e ≠ .call .poison) : (e.apply c).2.Sound := by
  have hturn := Event.turn h.reachable e
  refine ⟨Event.reachable_apply h.reachable e, hturn.config ▸ h.valid, ?_⟩
  rw [hturn.poisoned_eq, h.free, decide_eq_false he]
  rfl

theorem run {events : List Event} (hp : .call .poison ∉ events) : (Event.run c events).2.Sound := by
  induction events generalizing c with
  | nil => exact h
  | cons e es ih =>
    rw [List.mem_cons, not_or] at hp
    exact ih (h.apply (Ne.symm hp.1)) hp.2

theorem call_reaches (k : Call) : k.reaches c = true := by
  cases k <;> simp [Call.reaches, h.free, h.valid, Except.isOk, Except.toBool]

theorem operations_eq (e : Event) : e.operations c = if e.reaches c then e.bare else [] := by
  cases e with
  | instructionTick | timerTick =>
    rw [Event.operations, h.free, Bool.not_false, Bool.and_true]
    rfl
  | call k =>
    rw [Event.operations, h.call_reaches k, if_pos rfl, Event.reaches, Event.bare]
    split
    · rfl
    · next hk => exact not_not.1 (mt k.operations_ne_nil_iff.1 hk)

theorem answer?_eq (e : Event) :
    e.answer? c = if e.reaches c then e.served? c.machine c.supply else none := by
  cases e with
  | instructionTick | timerTick => simp [Event.answer?, Event.served?]
  | call k =>
    rw [Event.answer?, Event.reaches, Event.served?]
    split
    · next hk =>
      rw [Call.reply_apply (k.operations_ne_nil_iff.2 hk) (h.call_reaches k)]
      rfl
    · rfl

end Console.Sound

namespace Event

/-- **The machine inside a console** does what a machine of its own does. -/
theorem serve_deeds {c : Console} (h : c.Sound) {events : List Event}
    (hp : .call .poison ∉ events) :
    history c events = (deeds c events).flatMap bare ∧
      (run c events).2.core = (serve c.machine c.supply (deeds c events)).core ∧
      answers c events = (serve c.machine c.supply (deeds c events)).reply := by
  induction events generalizing c with
  | nil => exact ⟨rfl, rfl, rfl⟩
  | cons e es ih =>
    rw [List.mem_cons, not_or] at hp
    obtain ⟨he, hp⟩ := hp
    have hops := h.operations_eq e
    have hanswer := h.answer?_eq e
    have hm := machine_apply c e
    have hs := supply_apply c e
    obtain ⟨hhistory, hcore, hanswers⟩ := ih (h.apply (Ne.symm he)) hp
    rw [hops] at hm hs
    simp only [history, answers, gather, deeds, hops, hanswer]
    cases hr : e.reaches c with
    | true =>
      rw [hr] at hm hs
      simp only [if_true] at hm hs
      rw [hm, hs] at hcore hanswers
      simp only [if_true, Option.toList_some, List.singleton_append, List.flatMap_cons]
      exact ⟨congrArg _ hhistory, hcore, congrArg _ hanswers⟩
    | false =>
      -- Neither the console nor its machine notices.
      rw [hr] at hm hs
      rw [hm, hs] at hcore hanswers
      exact ⟨hhistory, hcore, hanswers⟩

/-! ## Observers that read and leave -/

/-- An observer reads or leaves, without hold of the machine. -/
def isAside : Event → Bool
  | .call k => k.isAside
  | _ => false

theorem run_of_isAside {e : Event} (h : e.isAside = true) (m : Machine) (u : Supply) :
    ∃ os, (Operation.run m u e.bare).core = (m.withObservers os, u) ∧
      os.joined = m.observers.joined ∧ Operation.completed (Operation.journal m u e.bare) = [] := by
  cases e with
  | instructionTick | timerTick => cases h
  | call k =>
    cases k with
    | receive id => exact ⟨(m.observers.receive id).2, rfl, Observers.joined_receive _ id, rfl⟩
    | unsubscribe id => exact ⟨m.observers.leave id, rfl, rfl, rfl⟩
    | _ => cases h

theorem asksObserver_of_mem_bare {e : Event} (h : e.isAside = false) :
    ∀ op ∈ e.bare, op.asksObserver = false := by
  cases e with
  | instructionTick | timerTick => decide
  | call k =>
    cases k with
    | receive | unsubscribe => cases h
    | _ => simp [bare, Call.operations, Operation.asksObserver]

theorem completed_cons (m : Machine) (u : Supply) (e : Event) (es : List Event) :
    Operation.completed (Operation.journal m u ((e :: es).flatMap bare)) =
      Operation.completed (Operation.journal m u e.bare) ++
        Operation.completed (Operation.journal (Operation.run m u e.bare).machine
          (Operation.run m u e.bare).supply (es.flatMap bare)) := by
  rw [List.flatMap_cons, Operation.journal_append, Operation.completed, List.flatMap_append]
  rfl

theorem isAside_of_served? {m : Machine} {u : Supply} {e : Event} :
    ∀ entry ∈ (served? m u e).toList, entry.1.isAside = e.isAside := by
  intro entry hentry
  cases e with
  | instructionTick | timerTick => cases hentry
  | call k =>
    obtain ⟨r, -, rfl⟩ := Option.map_eq_some_iff.1 (Option.mem_toList.1 hentry)
    rfl

/-- **What observers do aside** matters to them alone. Without it a machine answers to all the rest
what it answers with it, takes the same random bytes, completes the same cycles, and is the same but
for its observers. -/
theorem serve_aside (m : Machine) (u : Supply) {os : Observers}
    (hj : os.joined = m.observers.joined) (events : List Event) :
    let a := serve m u events
    let b := serve (m.withObservers os) u (events.filter (!·.isAside))
    b.machine = a.machine.withObservers b.machine.observers ∧ b.supply = a.supply ∧
      b.reply = a.reply.filter (!·.1.isAside) ∧
      Operation.completed
          (Operation.journal (m.withObservers os) u ((events.filter (!·.isAside)).flatMap bare)) =
        Operation.completed (Operation.journal m u (events.flatMap bare)) := by
  induction events generalizing m u os with
  | nil => exact ⟨rfl, rfl, rfl, rfl⟩
  | cons e es ih =>
    simp only [serve, completed_cons, List.filter_append]
    have hentry := isAside_of_served? (m := m) (u := u) (e := e)
    cases he : e.isAside with
    | true =>
      -- Only one machine does it: that changes its observers, but not how many have come.
      obtain ⟨os', hcore, hj', hcycles⟩ := run_of_isAside he m u
      obtain ⟨hm, hs⟩ := Prod.mk.inj hcore
      have hnone : (served? m u e).toList.filter (!·.1.isAside) = [] :=
        List.filter_eq_nil_iff.2 fun entry hmem => by rw [hentry entry hmem, he]; decide
      rw [List.filter_cons_of_neg (by rw [he]; decide), hm, hs, hcycles, hnone]
      exact ih (m.withObservers os') u (hj.trans hj'.symm)
    | false =>
      obtain ⟨hm, hs, halike⟩ := Operation.run_withObservers m u os e.bare
      obtain ⟨hreply, hj'⟩ := halike hj (asksObserver_of_mem_bare he)
      have hall : (served? m u e).toList.filter (!·.1.isAside) = (served? m u e).toList :=
        List.filter_eq_self.2 fun entry hmem => by rw [hentry entry hmem, he]; rfl
      have hserved : served? (m.withObservers os) u e = served? m u e := by
        cases e with
        | instructionTick | timerTick => rfl
        | call k => exact congrArg (fun rs => rs.getLast?.map (k, ·)) hreply
      have hjournal : Operation.journal (m.withObservers os) u e.bare =
          Operation.journal m u e.bare := by
        rw [Operation.journal, hreply, Operation.journal]
      rw [hm] at hj'
      obtain ⟨hm', hs', hreply', hcycles'⟩ :=
        ih (Operation.run m u e.bare).machine (Operation.run m u e.bare).supply hj'
      rw [List.filter_cons_of_pos (by rw [he]; rfl), completed_cons, serve, hm, hs, hjournal,
        hserved, hall]
      exact ⟨hm', hs', congrArg _ hreply', congrArg _ hcycles'⟩

/-! ## A reset and its load -/

theorem bare_cases (e : Event) :
    e.bare = [] ∨ (∃ op, e.bare = [op] ∧ op ≠ .reset) ∨
      ∃ op : Operation, e.bare = [.reset, op] ∧ op.isLoad = true := by
  cases e with
  | instructionTick | timerTick => exact .inr (.inl ⟨_, rfl, nofun⟩)
  | call k =>
    cases k with
    | start | stop | close | isRunning | poison => exact .inl rfl
    | boot | bootFrom => exact .inr (.inr ⟨_, rfl, rfl⟩)
    | _ => exact .inr (.inl ⟨_, rfl, nofun⟩)

/-- Nothing comes between a reset and its load. -/
theorem load_behind_reset {events : List Event} {pre post : List Operation}
    (h : events.flatMap bare = pre ++ .reset :: post) :
    ∃ op rest, post = op :: rest ∧ op.isLoad = true := by
  induction events generalizing pre with
  | nil => simp at h
  | cons e es ih =>
    rw [List.flatMap_cons] at h
    rcases e.bare_cases with hbare | ⟨op, hbare, hop⟩ | ⟨op, hbare, hop⟩ <;> rw [hbare] at h
    · exact ih h
    · rcases pre with _ | ⟨first, pre⟩
      · exact absurd (List.cons.inj h).1 hop
      · exact ih (List.cons.inj h).2
    · rcases pre with _ | ⟨first, _ | ⟨second, pre⟩⟩
      · exact ⟨op, _, (List.cons.inj h).2.symm, hop⟩
      · rw [(List.cons.inj (List.cons.inj h).2).1] at hop
        cases hop
      · exact ih (List.cons.inj (List.cons.inj h).2).2

end Event

/-! ## Schedules -/

/-- A life of a console that can run, in which nobody dies who holds the machine. -/
structure Schedule (wrap : Wrap) (u : Supply) where
  config : Config
  buzzer : Buzzer
  life : List Event
  wraps : config.wrap = wrap
  valid : config.validate = .ok ()
  calm : .call .poison ∉ life

namespace Schedule

variable {wrap : Wrap} {u : Supply} (s : Schedule wrap u)

/-- The console when it is new. -/
def console : Console := .new s.config s.buzzer u

/-- The console after all that has happened. -/
def now : Console := (Event.run s.console s.life).2

/-- The ticks and calls that reached the machine, in the order in which they happened. -/
def deeds : List Event := Event.deeds s.console s.life

/-- The calls about the machine, each with what it answered. -/
def answers : List (Call × Reply) := Event.answers s.console s.life

/-- What the machine went through, with all its replies. -/
def journal : List (Operation × Reply) :=
  Operation.journal s.console.machine u (Event.history s.console s.life)

theorem machine_console : s.console.machine = .new wrap := congrArg Machine.new s.wraps

theorem sound_console : s.console.Sound := ⟨.new s.config.wrap, s.valid, rfl⟩

theorem sound_now : s.now.Sound := s.sound_console.run s.calm

theorem serves :
    s.journal = Operation.journal (.new wrap) u (s.deeds.flatMap Event.bare) ∧
      s.now.core = (Event.serve (.new wrap) u s.deeds).core ∧
      s.answers = (Event.serve (.new wrap) u s.deeds).reply := by
  obtain ⟨hhistory, hcore, hanswers⟩ := Event.serve_deeds s.sound_console s.calm
  have hsupply : s.console.supply = u := rfl
  rw [s.machine_console, hsupply] at hcore hanswers
  refine ⟨?_, hcore, hanswers⟩
  rw [journal, hhistory, s.machine_console]
  rfl

/-- Schedules with the same deeds but for what observers do aside. -/
theorem aside {s t : Schedule wrap u}
    (h : s.deeds.filter (!·.isAside) = t.deeds.filter (!·.isAside)) :
    t.now.machine = s.now.machine.withObservers t.now.machine.observers ∧
      t.now.supply = s.now.supply ∧
      t.answers.filter (!·.1.isAside) = s.answers.filter (!·.1.isAside) ∧
      Operation.completed t.journal = Operation.completed s.journal := by
  obtain ⟨hsjournal, hscore, hsanswers⟩ := s.serves
  obtain ⟨htjournal, htcore, htanswers⟩ := t.serves
  -- Both are compared with the machine to which nothing is done aside.
  have hj : Observers.empty.joined = (Machine.new wrap).observers.joined := rfl
  obtain ⟨hsm, hss, hsr, hsc⟩ := Event.serve_aside (.new wrap) u hj s.deeds
  obtain ⟨htm, hts, htr, htc⟩ := Event.serve_aside (.new wrap) u hj t.deeds
  rw [h] at hsm hss hsr hsc
  obtain ⟨hsmachine, hssupply⟩ := Prod.mk.inj hscore
  obtain ⟨htmachine, htsupply⟩ := Prod.mk.inj htcore
  refine ⟨?_, ?_, ?_, ?_⟩
  · have hsame := congrArg (·.withObservers t.now.machine.observers) (hsm.symm.trans htm)
    rw [← hsmachine, ← htmachine] at hsame
    exact hsame.symm
  · rw [htsupply, hssupply, ← hts, ← hss]
  · rw [htanswers, hsanswers, ← htr, ← hsr]
  · rw [htjournal, hsjournal, ← htc, ← hsc]

end Schedule

/-- **The order alone matters.** A console that can run, in which nobody dies who holds the machine,
does to its machine what is done to a machine of its own by the ticks and calls that reach it, one
after another, and its calls answer what that machine answers. So it makes no difference to the
machine, to the random bytes, to any reply and to any observer at which rates the clocks tick, how
the ticks are split into sessions, and what the buzzer does. If the observers read and leave at
other points, nobody else is answered anything else, and the same cycles are completed. Nothing ever
comes between a reset and its load. -/
theorem machine_depends_on_order_alone (wrap : Wrap) (u : Supply) :
    (∀ s : Schedule wrap u,
      s.journal = Operation.journal (.new wrap) u (s.deeds.flatMap Event.bare) ∧
      s.now.core = (Operation.run (.new wrap) u (s.deeds.flatMap Event.bare)).core ∧
      s.answers = (Event.serve (.new wrap) u s.deeds).reply) ∧
    (∀ s t : Schedule wrap u, s.deeds = t.deeds →
      s.now.core = t.now.core ∧ s.answers = t.answers ∧ s.journal = t.journal) ∧
    (∀ s t : Schedule wrap u,
      s.deeds.filter (!·.isAside) = t.deeds.filter (!·.isAside) →
      t.now.machine = s.now.machine.withObservers t.now.machine.observers ∧
        t.now.supply = s.now.supply ∧
        t.answers.filter (!·.1.isAside) = s.answers.filter (!·.1.isAside) ∧
        Operation.completed t.journal = Operation.completed s.journal) ∧
    ∀ (s : Schedule wrap u) (before : List Event), before <+: s.life →
      ∀ pre post, Event.history s.console before = pre ++ .reset :: post →
        ∃ op rest, post = op :: rest ∧ op.isLoad = true := by
  refine ⟨fun s => ?_, fun s t h => ?_, fun s t h => s.aside h,
    fun s before hbefore pre post hhistory => ?_⟩
  · obtain ⟨hjournal, hcore, hanswers⟩ := s.serves
    exact ⟨hjournal, hcore.trans (Event.core_serve _ _ _), hanswers⟩
  · obtain ⟨hsjournal, hscore, hsanswers⟩ := s.serves
    obtain ⟨htjournal, htcore, htanswers⟩ := t.serves
    rw [hsjournal, hscore, hsanswers, htjournal, htcore, htanswers, h]
    exact ⟨rfl, rfl, rfl⟩
  · have hcalm : .call .poison ∉ before := fun hmem => s.calm (hbefore.subset hmem)
    rw [(Event.serve_deeds s.sound_console hcalm).1] at hhistory
    exact Event.load_behind_reset hhistory

/-- A program that takes a random byte and waits for a key, told in one session. -/
def Schedule.steady : Schedule .flat (.ofSeed 1) where
  config := {}
  buzzer := .recorder
  life := [.call (.subscribe 4), .call (.boot [0xC0, 0xFF, 0xF1, 0x0A, 0xF0, 0x18]), .call .start,
    .instructionTick, .instructionTick, .timerTick, .call (.press 0x7), .instructionTick,
    .instructionTick, .timerTick, .call (.receive 0)]
  wraps := rfl
  valid := rfl
  calm := by decide

/-- The same in three sessions, at other rates, with a buzzer that is muted, and with ticks and
calls in between that do not reach the machine. -/
def Schedule.hasty : Schedule .flat (.ofSeed 1) where
  config := { instructionHz := 1, timerHz := 7, muted := true }
  buzzer := .fragile
  life := [.timerTick, .call (.subscribe 4), .call .start,
    .call (.boot [0xC0, 0xFF, 0xF1, 0x0A, 0xF0, 0x18]), .instructionTick, .call .stop,
    .instructionTick, .call .start, .call .isRunning, .instructionTick, .timerTick,
    .call (.press 0x7), .call .start, .instructionTick, .call .stop, .call .start,
    .instructionTick, .timerTick, .call .close, .timerTick, .call (.receive 0)]
  wraps := rfl
  valid := rfl
  calm := by decide

theorem order_alone_matters_when_hasty :
    Schedule.steady.deeds = Schedule.hasty.deeds ∧
      Schedule.steady.now.core = Schedule.hasty.now.core ∧
      Schedule.steady.answers = Schedule.hasty.answers ∧
      [] <+: Schedule.hasty.life := by
  have hdeeds : Schedule.steady.deeds = Schedule.hasty.deeds := by decide +kernel
  obtain ⟨-, hsame, -⟩ := machine_depends_on_order_alone .flat (.ofSeed 1)
  obtain ⟨hcore, hanswers, -⟩ := hsame Schedule.steady Schedule.hasty hdeeds
  exact ⟨hdeeds, hcore, hanswers, List.nil_prefix⟩

end Chip8VM
