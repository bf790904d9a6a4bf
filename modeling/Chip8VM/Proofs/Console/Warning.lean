import Mathlib.Data.List.Induction
import Chip8VM.Proofs.Console.Session
import Chip8VM.Proofs.Machine.Permanence

/-!
# What is logged of a stuck program

A step that fails is logged unless the step before it failed at the same place. `Step.complaints`
says so of the steps alone, and in a session nothing else is warned of (`Event.warnings_run`). A
stuck program stays at its place and fails there with the same fault, so it is logged once
(`Event.complaints_of_stuck`). But a place is not a program: what is booted in place of a program
that was stuck, and gets stuck at the same place, is not logged at all.
-/

set_option autoImplicit false

namespace Chip8VM

/-- The texts of the warnings that were logged so far. -/
def Console.warnings (c : Console) : List String :=
  (c.alarms.filter (·.level = .warn)).map (·.text)

namespace Step

/-- Where the last of some steps failed, if it did; `last` is that of the step before them. -/
def lastFault (last : Option Word) : List (Word × Step) → Option Word
  | [] => last
  | (pc, s) :: rest => lastFault (s.failedAt pc) rest

/-- What should be logged of a step that follows one that failed at `last`, if that failed. -/
def complaint (last : Option Word) (pc : Word) : Step → List String
  | .failed f => if last = some pc then [] else [f.message]
  | _ => []

/-- What should be logged of steps, one after another. -/
def complaints (last : Option Word) : List (Word × Step) → List String
  | [] => []
  | (pc, s) :: rest => s.complaint last pc ++ complaints (s.failedAt pc) rest

variable {last : Option Word} {steps : List (Word × Step)}

theorem lastFault_append (last : Option Word) (l m : List (Word × Step)) :
    lastFault last (l ++ m) = lastFault (lastFault last l) m := by
  induction l generalizing last with
  | nil => rfl
  | cons x l ih => exact ih _

theorem complaints_append (last : Option Word) (l m : List (Word × Step)) :
    complaints last (l ++ m) = complaints last l ++ complaints (lastFault last l) m := by
  induction l generalizing last with
  | nil => rfl
  | cons x l ih => rw [List.cons_append, complaints, ih, complaints, List.append_assoc, lastFault]

theorem lastFault_none (steps : List (Word × Step)) :
    lastFault none steps = steps.getLast?.bind fun (pc, s) => s.failedAt pc := by
  induction steps using List.reverseRecOn with
  | nil => rfl
  | append_singleton l x => simp [lastFault_append, lastFault]

theorem failedAt_of_complaint {pc : Word} {s : Step} (h : s.complaint none pc = []) :
    s.failedAt pc = none := by
  cases s with
  | failed f => cases h
  | _ => rfl

/-- Without a complaint no step failed. -/
theorem lastFault_of_complaints (h : complaints none steps = []) : lastFault none steps = none := by
  induction steps with
  | nil => rfl
  | cons x rest ih =>
    obtain ⟨hx, hrest⟩ := List.append_eq_nil_iff.1 h
    have hnone := failedAt_of_complaint hx
    rw [lastFault]
    rw [hnone] at hrest ⊢
    exact ih hrest

theorem complaints_of_noFault (h : ∀ pc f, (pc, .failed f) ∉ steps) :
    complaints last steps = [] := by
  induction steps generalizing last with
  | nil => rfl
  | cons x rest ih =>
    obtain ⟨pc, s⟩ := x
    have hs : s.complaint last pc = [] := by
      cases s with
      | failed f => exact absurd List.mem_cons_self (h pc f)
      | _ => rfl
    rw [complaints, hs]
    exact ih fun pc f hmem => h pc f (.tail _ hmem)

/-- Of steps that all fail at one place with one fault, the first is logged. -/
theorem complaints_of_same {pc : Word} {f : Fault} (h : ∀ x ∈ steps, x = (pc, .failed f))
    (hne : steps ≠ []) (hlast : last ≠ some pc) : complaints last steps = [f.message] := by
  have hrest : ∀ {l : List (Word × Step)}, (∀ x ∈ l, x = (pc, .failed f)) →
      complaints (some pc) l = [] := by
    intro l hl
    induction l with
    | nil => rfl
    | cons x l ih =>
      rw [hl x List.mem_cons_self, complaints, complaint, if_pos rfl]
      exact ih fun y hy => hl y (.tail _ hy)
  cases steps with
  | nil => exact absurd rfl hne
  | cons x l =>
    rw [h x List.mem_cons_self, complaints, complaint, if_neg hlast, failedAt,
      hrest fun y hy => h y (.tail _ hy)]
    rfl

end Step

/-! ## One event -/

/-- The thread knows of the last step that it failed at `last`, if it did. -/
def Console.Remembers (last : Option Word) (c : Console) : Prop :=
  ∀ t, c.clock = some t → t.faultedAt = last

theorem Console.exists_remembers (c : Console) : ∃ last, c.Remembers last := by
  refine ⟨c.clock.bind (·.faultedAt), fun t hc => ?_⟩
  rw [hc]
  rfl

theorem Event.step?_of_ne {c : Console} {e : Event} (h : e ≠ .instructionTick) :
    e.step? c = none := by
  cases e with
  | instructionTick => exact absurd rfl h
  | _ => rfl

namespace Console

theorem warnings_append (c : Console) {records : List Log.Record}
    (h : ∀ r ∈ records, r.level = .error) :
    ((c.alarms ++ records).filter (·.level = .warn)).map (·.text) = c.warnings := by
  have hnone : records.filter (·.level = .warn) = [] := by
    rw [List.filter_eq_nil_iff]
    intro r hr
    simp [h r hr]
  rw [List.filter_append, hnone, List.append_nil, warnings]

theorem warnings_warning (c : Console) (t : ClockThread) (pc : Word) (s : Step) :
    ((c.alarms ++ t.warning pc s).filter (·.level = .warn)).map (·.text) =
      c.warnings ++ s.complaint t.faultedAt pc := by
  have hs : ((t.warning pc s).filter (·.level = .warn)).map (·.text) =
      s.complaint t.faultedAt pc := by
    cases s with
    | failed f =>
      rw [ClockThread.warning, Step.complaint]
      split <;> rfl
    | _ => rfl
  rw [List.filter_append, List.map_append, hs, warnings]

end Console

/-- **What an event logs** is what should be logged of the step that it takes, if it takes one. -/
theorem Turn.noted {c c' : Console} {e : Event} {last : Option Word} (h : Turn c e c')
    (hm : c.Remembers last) :
    c'.warnings = c.warnings ++ Step.complaints last (e.step? c).toList ∧
      (e.starts c = false → c'.Remembers (Step.lastFault last (e.step? c).toList)) := by
  have quiet : e.step? c = none → c'.warnings = c.warnings →
      (e.starts c = false → c'.Remembers last) →
      c'.warnings = c.warnings ++ Step.complaints last (e.step? c).toList ∧
        (e.starts c = false → c'.Remembers (Step.lastFault last (e.step? c).toList)) := by
    intro hnone hw hc'
    rw [hnone, hw]
    exact ⟨(List.append_nil _).symm, hc'⟩
  cases h with
  | idle _ hi => exact quiet (Event.step?_of_idle hi e) rfl fun _ => hm
  | plain | poisoned | refused => exact quiet rfl rfl fun _ => hm
  | started hc hv =>
    refine quiet rfl rfl fun hs => ?_
    rw [Console.starts_of_standing hc hv] at hs
    cases hs
  | still he =>
    refine quiet (Event.step?_of_ne ?_) rfl fun _ => hm
    rintro rfl
    cases he
  | stopped errors he hc herrors =>
    refine quiet (Event.step?_of_ne ?_) (c.warnings_append herrors) fun _ t hnone => ?_
    · rintro rfl
      cases he
    · cases hnone
  | @gaveUp _ t text he hc ht hp =>
    refine quiet ?_ (c.warnings_append fun r hr => ?_) fun _ t' ht' => ?_
    · cases e <;> simp [Event.step?, hp]
    · rw [List.mem_singleton.1 hr]
    · cases ht'
      exact hm t hc
  | @stepped t hc ht hp =>
    have hstep : Event.step? c .instructionTick =
        some (c.machine.state.pc, (c.machine.step c.supply).reply) := by
      simp [Event.step?, Console.isTicking_eq hc, ht, hp]
    rw [hstep]
    refine ⟨?_, fun _ t' ht' => ?_⟩
    · refine (c.warnings_warning t _ _).trans ?_
      rw [hm t hc, Option.toList_some, Step.complaints, Step.complaints, List.append_nil]
    · cases ht'
      rfl
  | @ticked t hc =>
    refine quiet rfl rfl fun _ t' ht' => ?_
    cases ht'
    split
    · exact hm t hc
    · split <;> exact hm t hc

/-! ## A session -/

namespace Event

theorem noted_run {c : Console} {last : Option Word} (h : Reachable c.machine)
    (hm : c.Remembers last) {events : List Event} (hs : startsAgain c events = false) :
    (run c events).2.warnings = c.warnings ++ Step.complaints last (steps c events) ∧
      (run c events).2.Remembers (Step.lastFault last (steps c events)) := by
  induction events generalizing c last with
  | nil => exact ⟨(List.append_nil _).symm, hm⟩
  | cons e es ih =>
    obtain ⟨he, hs⟩ := startsAgain_cons_eq_false.1 hs
    obtain ⟨hw, hm'⟩ := (turn h e).noted hm
    obtain ⟨hws, hms⟩ := ih (reachable_apply h e) (hm' he) hs
    rw [steps, gather, ← steps, Step.complaints_append, Step.lastFault_append,
      ← List.append_assoc, ← hw]
    exact ⟨hws, hms⟩

end Event

namespace Session

variable {config : Config} {buzzer : Buzzer} {u : Supply} (s : Session config buzzer u)

/-- The texts of the warnings that were logged in the session. -/
def warnings : List String := s.now.warnings.drop s.opening.warnings.length

/-- Where the last step of the session failed, if it did. -/
def lastFault : Option Word := s.steps.getLast?.bind fun (pc, step) => step.failedAt pc

theorem remembers_opening : s.opening.Remembers none := by
  intro t hc
  rw [clock_opening] at hc
  cases hc
  rfl

/-- **In a session** it is logged what should be logged of its steps, and nothing else. -/
theorem warnings_now : s.now.warnings = s.opening.warnings ++ Step.complaints none s.steps :=
  (Event.noted_run s.reachable_opening s.remembers_opening s.alone).1

theorem warnings_eq : s.warnings = Step.complaints none s.steps := by
  rw [warnings, warnings_now, List.drop_left]

theorem remembers_now : s.now.Remembers s.lastFault := by
  have h := (Event.noted_run s.reachable_opening s.remembers_opening s.alone).2
  rwa [Step.lastFault_none] at h

end Session

/-! ## A stuck program -/

namespace Event

/-- An event puts another program into memory, or none. -/
def boots : Event → Bool
  | .call (.boot _) | .call (.bootFrom _) => true
  | _ => false

/-- An event freezes the machine or puts another program into memory. -/
def disturbs : Event → Bool
  | .call .pause => true
  | e => e.boots

variable {c : Console} {e : Event} {f : Fault}

theorem boots_of_disturbs (h : e.disturbs = false) : e.boots = false := by
  unfold disturbs at h
  split at h
  · cases h
  · exact h

theorem replacesProgram_of_operations (hb : e.boots = false) {op : Operation}
    (hop : op ∈ e.operations c) : op.replacesProgram = false := by
  cases e with
  | call k =>
    rw [operations] at hop
    split at hop
    · cases k <;> simp_all [Call.operations, Operation.replacesProgram, boots]
    · cases hop
  | _ =>
    rw [operations] at hop
    split at hop <;> simp_all [Operation.replacesProgram]

theorem pause_notMem_operations (hd : e.disturbs = false) : .pause ∉ e.operations c := by
  intro hop
  cases e with
  | call k =>
    rw [operations] at hop
    split at hop
    · cases k <;> simp_all [Call.operations, disturbs]
    · cases hop
  | _ =>
    rw [operations] at hop
    split at hop <;> simp_all

theorem sameProgram_apply (hf : Stuck c.machine.state f) (hb : e.boots = false) :
    c.machine.SameProgram (e.apply c).2.machine := by
  rw [machine_apply]
  exact Operation.sameProgram_run hf c.supply fun _ => replacesProgram_of_operations hb

theorem stuck_run (hf : Stuck c.machine.state f) {events : List Event}
    (hb : ∀ e ∈ events, e.boots = false) : Stuck (run c events).2.machine.state f := by
  induction events generalizing c with
  | nil => exact hf
  | cons e es ih =>
    have he := (sameProgram_apply hf (hb e List.mem_cons_self)).stuck hf
    exact ih he fun e' he' => hb e' (.tail _ he')

theorem unpaused_apply (hp : c.machine.paused = false) (hd : e.disturbs = false) :
    (e.apply c).2.machine.paused = false := by
  rw [machine_apply]
  exact Operation.unpaused_run hp c.supply (pause_notMem_operations hd)

/-- A step that an event takes of a stuck program fails, unless the machine is paused. -/
theorem step?_of_stuck (hf : Stuck c.machine.state f) (hp : c.machine.paused = false)
    {x : Word × Step} (hx : e.step? c = some x) : x = (c.machine.state.pc, .failed f) := by
  cases e with
  | instructionTick =>
    rw [step?, Machine.failed_of_stuck hp hf] at hx
    split at hx <;> cases hx
    rfl
  | _ => cases hx

/-- **All steps of a stuck program** fail at its place with its fault. -/
theorem steps_of_stuck (hf : Stuck c.machine.state f) (hp : c.machine.paused = false)
    {events : List Event} (hd : ∀ e ∈ events, e.disturbs = false) :
    ∀ x ∈ steps c events, x = (c.machine.state.pc, .failed f) := by
  induction events generalizing c with
  | nil => exact List.forall_mem_nil _
  | cons e es ih =>
    intro x hx
    rw [steps, gather, List.mem_append, Option.mem_toList] at hx
    rcases hx with hx | hx
    · exact step?_of_stuck hf hp hx
    · have he := hd e List.mem_cons_self
      have hsame := sameProgram_apply hf (boots_of_disturbs he)
      rw [← hsame.pc]
      exact ih (hsame.stuck hf) (unpaused_apply hp he) (fun e' he' => hd e' (.tail _ he')) x hx

/-- **A stuck program is logged once.** -/
theorem complaints_of_stuck (hf : Stuck c.machine.state f) (hp : c.machine.paused = false)
    {events : List Event} (hd : ∀ e ∈ events, e.disturbs = false) (hne : steps c events ≠ []) :
    Step.complaints none (steps c events) = [f.message] :=
  Step.complaints_of_same (steps_of_stuck hf hp hd) hne (Option.some_ne_none _).symm

end Event

theorem Event.of_step?_failed {c : Console} {e : Event} {pc : Word} {f : Fault}
    (h : e.step? c = some (pc, .failed f)) :
    pc = c.machine.state.pc ∧ c.machine.paused = false ∧ Stuck c.machine.state f := by
  cases e with
  | instructionTick =>
    rw [step?] at h
    split at h
    · obtain ⟨hpc, hfail⟩ := Prod.mk.inj (Option.some.inj h)
      obtain ⟨hp, hf⟩ := Machine.stuck_of_failed hfail
      exact ⟨hpc.symm, hp, hf⟩
    · cases h
  | _ => cases h

namespace Session

variable {config : Config} {buzzer : Buzzer} {u : Supply} {s : Session config buzzer u}
  {f : Fault}

/-- What an event logs next in a session. -/
theorem warnings_next (s : Session config buzzer u) (e : Event) :
    (e.apply s.now).2.warnings = s.now.warnings ++
      match e.step? s.now with
      | some (pc, .failed f) => if s.lastFault = some pc then [] else [f.message]
      | _ => [] := by
  have hnext : ∀ x : Option (Word × Step),
      Step.complaints s.lastFault x.toList =
        match x with
        | some (pc, .failed f) => if s.lastFault = some pc then [] else [f.message]
        | _ => [] := by
    intro x
    cases x with
    | none => rfl
    | some x =>
      obtain ⟨pc, step⟩ := x
      cases step <;> simp [Step.complaints, Step.complaint]
  rw [← hnext]
  exact ((Event.turn s.reachable_now e).noted s.remembers_now).1

/-- The first step that fails in a session is logged, and nothing after it while nobody disturbs
the machine. -/
theorem warnings_of_first {pre post : List Event} {pc : Word}
    (hsplit : s.events = pre ++ .instructionTick :: post)
    (hfirst : ∀ pc f, (pc, .failed f) ∉ Event.steps s.opening pre)
    (hstep : Event.step? (Event.run s.opening pre).2 .instructionTick = some (pc, .failed f))
    (hpost : ∀ e ∈ post, e.disturbs = false) :
    s.warnings = [f.message] ∧ Stuck s.now.machine.state f := by
  obtain ⟨-, hp, hf⟩ := Event.of_step?_failed hstep
  have hd : ∀ e ∈ Event.instructionTick :: post, e.disturbs = false :=
    List.forall_mem_cons.2 ⟨rfl, hpost⟩
  have hne : Event.steps (Event.run s.opening pre).2 (.instructionTick :: post) ≠ [] := by
    rw [Event.steps, Event.gather, hstep]
    exact List.cons_ne_nil _ _
  have hpre : Step.complaints none (Event.steps s.opening pre) = [] :=
    Step.complaints_of_noFault hfirst
  constructor
  · rw [warnings_eq, steps, hsplit, Event.steps, Event.gather_append, ← Event.steps, ← Event.steps,
      Step.complaints_append, hpre, Step.lastFault_of_complaints hpre, List.nil_append,
      Event.complaints_of_stuck hf hp hd hne]
  · rw [now, hsplit, Event.run_append]
    exact Event.stuck_run hf fun e he => Event.boots_of_disturbs (hd e he)

/-- A later session finds the program still stuck if nothing was booted in between. -/
theorem stuck_opening (hf : Stuck s.now.machine.state f) {s' : Session config buzzer u}
    {more : List Event} (hpast : s'.past = s.life ++ more)
    (hmore : ∀ e ∈ more, e.boots = false) : Stuck s'.opening.machine.state f := by
  rw [opening_eq, hpast, Event.run_append, run_life]
  exact Event.stuck_run hf hmore

end Session

/-- **A stuck program is logged once in a session.** A step that fails is logged, with the text of
its fault, unless the last step of the session failed at the same place; nothing else is warned of.
So once a step has failed, and while nobody pauses the machine or boots another program, that is all
the session logs; and so it is again in each later session that takes a step. -/
theorem stuck_program_is_logged_once (config : Config) (buzzer : Buzzer) (u : Supply) :
    (∀ (s : Session config buzzer u) (e : Event),
      (e.apply s.now).2.warnings = s.now.warnings ++
        match e.step? s.now with
        | some (pc, .failed f) => if s.lastFault = some pc then [] else [f.message]
        | _ => []) ∧
    ∀ (s : Session config buzzer u) (pre post : List Event) (pc : Word) (f : Fault),
      s.events = pre ++ .instructionTick :: post →
      (∀ pc f, (pc, .failed f) ∉ Event.steps s.opening pre) →
      Event.step? (Event.run s.opening pre).2 .instructionTick = some (pc, .failed f) →
      (∀ e ∈ post, e.disturbs = false) →
      s.warnings = [f.message] ∧
        ∀ (s' : Session config buzzer u) (more : List Event), s'.past = s.life ++ more →
          (∀ e ∈ more, e.boots = false) → s'.opening.machine.paused = false →
          (∀ e ∈ s'.events, e.disturbs = false) → s'.steps ≠ [] →
          s'.warnings = [f.message] := by
  refine ⟨fun s e => s.warnings_next e, ?_⟩
  intro s pre post pc f hsplit hfirst hstep hpost
  obtain ⟨hwarnings, hf⟩ := Session.warnings_of_first hsplit hfirst hstep hpost
  refine ⟨hwarnings, ?_⟩
  intro s' more hpast hmore hp hd hne
  have hf' := Session.stuck_opening hf hpast hmore
  rw [Session.warnings_eq]
  exact Event.complaints_of_stuck hf' hp hd hne

/-- A program that returns from nothing, run for a while and then stopped. -/
def Session.stranded : Session {} .recorder (.ofSeed 1) where
  past := [.call (.boot [0x00, 0xEE])]
  events := [.timerTick, .instructionTick, .call (.press 5), .instructionTick, .call .stop]
  starts := by decide +kernel
  alone := by decide +kernel

/-- The same program, started again. -/
def Session.strandedAgain : Session {} .recorder (.ofSeed 1) where
  past := Session.stranded.life ++ [.call .isPaused]
  events := [.instructionTick, .timerTick, .instructionTick]
  starts := by decide +kernel
  alone := by decide +kernel

theorem stuck_program_is_logged_once_when_stranded :
    Session.stranded.warnings = [(Fault.stackUnderflow 0x200).message] ∧
      Session.strandedAgain.warnings = [(Fault.stackUnderflow 0x200).message] := by
  obtain ⟨-, honce⟩ := stuck_program_is_logged_once {} .recorder (.ofSeed 1)
  have hfirst : Event.steps Session.stranded.opening [.timerTick] = [] := by decide +kernel
  obtain ⟨hwarnings, hlater⟩ := honce Session.stranded [.timerTick]
    [.call (.press 5), .instructionTick, .call .stop] 0x200 (.stackUnderflow 0x200) rfl
    (by simp [hfirst]) (by decide +kernel) (by decide)
  exact ⟨hwarnings, hlater Session.strandedAgain [.call .isPaused] rfl (by decide)
    (by decide +kernel) (by decide) (by decide +kernel)⟩

/-! ## A program in place of another -/

/-- What became of the last warning in the course of some events: there was none, or it was of the
fault that the program is still stuck with, or another program was booted since. -/
inductive LastWarning (c : Console) (events : List Event) : Prop
  | none : (Event.run c events).2.warnings = c.warnings → LastWarning c events
  | stuck (f : Fault) (earlier : List String) : Stuck (Event.run c events).2.machine.state f →
      (Event.run c events).2.warnings = c.warnings ++ earlier ++ [f.message] → LastWarning c events
  | replaced (pre post : List Event) {e : Event} : events = pre ++ e :: post → e.boots = true →
      (Event.run c pre).2.warnings = (Event.run c events).2.warnings → LastWarning c events

/-- An event warns of nothing, or of the fault that the program is stuck with. -/
theorem Turn.warnings_cases {c c' : Console} {e : Event} (h : Turn c e c') :
    c'.warnings = c.warnings ∨
      ∃ pc f, e.step? c = some (pc, .failed f) ∧ c'.warnings = c.warnings ++ [f.message] := by
  obtain ⟨last, hm⟩ := c.exists_remembers
  obtain ⟨hw, -⟩ := h.noted hm
  cases hx : e.step? c with
  | none =>
    rw [hx] at hw
    exact .inl (hw.trans (List.append_nil _))
  | some x =>
    obtain ⟨pc, step⟩ := x
    rw [hx, Option.toList_some, Step.complaints, Step.complaints, List.append_nil] at hw
    cases step with
    | failed f =>
      rw [Step.complaint] at hw
      split at hw
      · exact .inl (hw.trans (List.append_nil _))
      · exact .inr ⟨pc, f, rfl, hw⟩
    | _ => exact .inl (hw.trans (List.append_nil _))

theorem Event.exists_warnings_run {c : Console} (h : Reachable c.machine) (events : List Event) :
    ∃ ws, (run c events).2.warnings = c.warnings ++ ws := by
  induction events generalizing c with
  | nil => exact ⟨[], (List.append_nil _).symm⟩
  | cons e es ih =>
    obtain ⟨ws, hws⟩ := ih (reachable_apply h e)
    rcases (turn h e).warnings_cases with hw | ⟨-, f, -, hw⟩
    · exact ⟨ws, hw ▸ hws⟩
    · exact ⟨f.message :: ws, by rw [run, hws, hw, List.append_assoc, List.singleton_append]⟩

theorem LastWarning.of_run {c : Console} (h : Reachable c.machine) (events : List Event) :
    LastWarning c events := by
  induction events using List.reverseRecOn with
  | nil => exact .none rfl
  | append_singleton events e ih =>
    have hturn := Event.turn (Event.reachable_run_of h events) e
    have hrun : (Event.run c (events ++ [e])).2 = (e.apply (Event.run c events).2).2 :=
      Event.run_append c events [e]
    rw [← hrun] at hturn
    rcases hturn.warnings_cases with hsilent | ⟨pc, f, hstep, hwarns⟩
    · cases hb : e.boots with
      | true => exact .replaced events [] rfl hb hsilent.symm
      | false =>
        cases ih with
        | none hw => exact .none (hsilent.trans hw)
        | stuck f earlier hf hw =>
          refine .stuck f earlier ?_ (hsilent.trans hw)
          rw [hrun]
          exact (Event.sameProgram_apply hf hb).stuck hf
        | replaced pre post hsplit he' hw =>
          refine .replaced pre (post ++ [e]) ?_ he' (hw.trans hsilent.symm)
          rw [hsplit, List.append_assoc, List.cons_append]
    · -- A boot takes no step, so the program is the one that is stuck.
      have hb : e.boots = false := by
        rw [Bool.eq_false_iff]
        intro hb
        have hne : e ≠ .instructionTick := by
          rintro rfl
          cases hb
        rw [Event.step?_of_ne hne] at hstep
        cases hstep
      obtain ⟨-, -, hf⟩ := Event.of_step?_failed hstep
      have hstuck := (Event.sameProgram_apply hf hb).stuck hf
      rw [← hrun] at hstuck
      obtain ⟨earlier, hearlier⟩ := Event.exists_warnings_run h events
      exact .stuck f earlier hstuck (hearlier ▸ hwarns)

/-- **A stuck program fails silently only in place of another** that was stuck at the same place.
A step that fails with another fault than the session warned of last is logged, unless the step
before it failed at the same place too, and then a program was booted since that warning. -/
theorem fails_silently_only_after_boot {config : Config} {buzzer : Buzzer} {u : Supply}
    (s : Session config buzzer u) {pc : Word} {f : Fault}
    (hstep : Event.step? s.now .instructionTick = some (pc, .failed f))
    (hnew : s.warnings.getLast? ≠ some f.message) :
    s.now.instructionTick.warnings = s.now.warnings ++ [f.message] ∨
      s.now.instructionTick.warnings = s.now.warnings ∧ s.lastFault = some pc ∧
        ∃ pre e post, s.events = pre ++ e :: post ∧ e.boots = true ∧
          (Event.run s.opening pre).2.warnings = s.now.warnings := by
  have hnext := s.warnings_next .instructionTick
  rw [hstep] at hnext
  by_cases hlast : s.lastFault = some pc
  · simp only [hlast, if_true, List.append_nil] at hnext
    refine .inr ⟨hnext, hlast, ?_⟩
    cases LastWarning.of_run s.reachable_opening s.events with
    | none hw =>
      -- A step failed, so something was logged.
      have hnone := s.warnings_now.symm.trans hw
      rw [List.append_right_eq_self] at hnone
      have hfault := Step.lastFault_of_complaints hnone
      rw [Step.lastFault_none] at hfault
      rw [Session.lastFault, hfault] at hlast
      cases hlast
    | stuck g earlier hg hw =>
      obtain ⟨-, hp, hf⟩ := Event.of_step?_failed hstep
      have hsame : f = g := hf.unique hg
      have hdrop : s.warnings = earlier ++ [g.message] := by
        rw [Session.warnings, Session.now, hw, List.append_assoc, List.drop_left]
      rw [hdrop, hsame] at hnew
      exact absurd List.getLast?_concat hnew
    | replaced pre post hsplit he hw => exact ⟨pre, _, post, hsplit, he, hw⟩
  · simp only [hlast, if_false] at hnext
    exact .inl hnext

/-- A program that returns from nothing, and another one in its place that no instruction begins. -/
def Session.overwritten : Session {} .recorder (.ofSeed 1) where
  past := [.call (.boot [0x00, 0xEE])]
  events := [.instructionTick, .call (.boot [0xFF, 0xFF])]
  starts := by decide +kernel
  alone := by decide +kernel

theorem Session.step?_overwritten :
    Event.step? overwritten.now .instructionTick =
      some (0x200, .failed (.unknownInstruction 0xFFFF 0x200)) := by
  decide +kernel

theorem Session.warnings_overwritten :
    overwritten.warnings.getLast? ≠ some (Fault.unknownInstruction 0xFFFF 0x200).message := by
  decide +kernel

theorem Session.silent_overwritten :
    overwritten.now.instructionTick.warnings = overwritten.now.warnings := by
  decide +kernel

theorem replaced_program_fails_silently :
    ¬ ∀ (s : Session {} .recorder (.ofSeed 1)) (pc : Word) (f : Fault),
      Event.step? s.now .instructionTick = some (pc, .failed f) →
      s.warnings.getLast? ≠ some f.message →
      s.now.instructionTick.warnings = s.now.warnings ++ [f.message] := by
  intro h
  have hlogged := h _ _ _ Session.step?_overwritten Session.warnings_overwritten
  rw [Session.silent_overwritten, List.self_eq_append_right] at hlogged
  cases hlogged

theorem fails_silently_when_overwritten :
    Event.step? Session.overwritten.now .instructionTick =
        some (0x200, .failed (.unknownInstruction 0xFFFF 0x200)) ∧
      Session.overwritten.warnings.getLast? ≠ some (Fault.unknownInstruction 0xFFFF 0x200).message ∧
      Session.overwritten.lastFault = some 0x200 := by
  refine ⟨Session.step?_overwritten, Session.warnings_overwritten, ?_⟩
  rcases fails_silently_only_after_boot Session.overwritten Session.step?_overwritten
    Session.warnings_overwritten with hlogged | ⟨-, hlast, -⟩
  · rw [Session.silent_overwritten, List.self_eq_append_right] at hlogged
    cases hlogged
  · exact hlast

end Chip8VM
