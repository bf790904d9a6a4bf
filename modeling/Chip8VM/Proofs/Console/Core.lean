import Chip8VM.Console.Event
import Chip8VM.Proofs.Machine.Inbox
import Chip8VM.Proofs.Machine.Run

/-!
# The machine inside a console

Whatever happens to a console, its machine goes through a history of operations and nothing else.
`Event.operations` says which ones a single event carries out, `Event.core_apply` that these are
all, and `Event.core_run` puts the histories of a whole life together. So whatever holds of every
history of a machine holds of the machine inside a console.
-/

set_option autoImplicit false

namespace Chip8VM

/-- The machine left behind, and the random bytes it has yet to take. -/
def After.core {α : Type} (a : After α) : Machine × Supply := (a.machine, a.supply)

/-- A clock that stands still is refused, and nothing else is. -/
theorem Config.validate_eq (config : Config) : config.validate =
    if config.instructionHz = 0 ∨ config.timerHz = 0 then .error (.clockRate 0) else .ok () := by
  unfold validate
  by_cases hi : config.instructionHz = 0
  · simp [hi]
  · by_cases ht : config.timerHz = 0 <;> simp [hi, ht]

namespace Console

/-- The machine, and the random bytes it has yet to take. -/
def core (c : Console) : Machine × Supply := (c.machine, c.supply)

/-! ## The clocks and the buzzer leave the machine alone -/

variable (c : Console) (t : ClockThread)

theorem core_tell (active : Bool) : (c.tell active).2.core = c.core := by
  unfold tell
  split <;> rfl

theorem core_endThread : (c.endThread t).core = c.core := by
  unfold endThread
  split
  · exact c.core_tell false
  · rfl

theorem core_joinThread : (c.joinThread t).2.core = c.core := by
  unfold joinThread
  split
  · exact c.core_endThread t
  · rfl
  · rfl

theorem core_stop : c.stop.2.core = c.core := by
  unfold stop
  split
  · rfl
  · next t _ =>
    have hjoin := c.core_joinThread t
    generalize c.joinThread t = r at hjoin ⊢
    obtain ⟨_ | _, c'⟩ := r <;> exact hjoin

theorem core_close : c.close.core = c.core := by
  have hstop := c.core_stop
  unfold close
  generalize c.stop = r at hstop ⊢
  obtain ⟨_ | _, c'⟩ := r <;> exact hstop

theorem core_start : c.start.2.core = c.core := by
  unfold start
  split
  · rfl
  · cases c.config.validate <;> rfl

theorem core_poison : c.poison.2.core = c.core := by
  unfold poison
  cases c.lock <;> rfl

theorem core_giveUp : (c.giveUp t).core = c.core := core_endThread _ t

theorem core_noteStep (pc : Word) (s : Step) : (c.noteStep t pc s).core = c.core := by
  cases s with
  | failed f =>
    simp only [noteStep]
    split <;> rfl
  | _ => rfl

theorem core_noteTone (sounding : Bool) : (c.noteTone t sounding).core = c.core := by
  unfold noteTone
  split
  · rfl
  · have htell := c.core_tell sounding
    generalize c.tell sounding = r at htell ⊢
    obtain ⟨_ | _, c'⟩ := r <;> exact htell

/-! ## Taking hold of the machine -/

theorem core_change {α : Type} (f : Machine → α × Machine) :
    (c.change f).2.core = if c.poisoned then c.core else ((f c.machine).2, c.supply) := by
  unfold change lock
  cases c.poisoned <;> rfl

theorem reply_change {α : Type} (f : Machine → α × Machine) :
    (c.change f).1 = if c.poisoned then .error .poisoned else .ok (f c.machine).1 := by
  unfold change lock
  cases c.poisoned <;> rfl

theorem core_attempt (f : Machine → Except Error Machine) :
    (c.attempt f).2.core =
      if c.poisoned then c.core
      else (Operation.settle c.machine c.supply (f c.machine)).core := by
  unfold attempt lock
  cases c.poisoned with
  | true => rfl
  | false =>
    simp only [Except.bind, Bool.false_eq_true, if_false]
    cases f c.machine <;> rfl

theorem core_resetThen (prepare : Machine → Except Error Machine) :
    (c.resetThen prepare).2.core =
      if c.config.validate.isOk && !c.poisoned then
        (Operation.settle c.machine.reset c.supply (prepare c.machine.reset)).core
      else c.core := by
  unfold resetThen lock
  cases c.config.validate with
  | error e => rfl
  | ok =>
    cases c.poisoned with
    | true => rfl
    | false =>
      simp only [Except.bind, Bool.false_eq_true, if_false]
      cases prepare c.machine.reset <;> rfl

theorem core_whileTicking {tick : Console → ClockThread → Console} {op : Operation}
    (hlive : ∀ t, c.poisoned = false → (tick c t).core = (op.apply c.machine c.supply).core)
    (hdead : ∀ t, c.poisoned = true → (tick c t).core = c.core) :
    (c.whileTicking tick).core =
      (Operation.run c.machine c.supply
        (if c.isTicking && !c.poisoned then [op] else [])).core := by
  unfold whileTicking
  cases hc : c.clock with
  | none =>
    have hidle : c.isTicking = false := by rw [isTicking, hc]; rfl
    rw [hidle]
    rfl
  | some t =>
    have hticking : c.isTicking = decide (t.health = .ticking) := by rw [isTicking, hc]; rfl
    rw [hticking]
    by_cases ht : t.health = .ticking
    · simp only [ht, if_true, decide_true, Bool.true_and]
      cases hp : c.poisoned with
      | true => exact hdead t hp
      | false => exact hlive t hp
    · simp only [ht, if_false, decide_false, Bool.false_and]
      rfl

end Console

/-! ## What an event does to the machine -/

namespace Call

/-- The operations that a call carries out on a machine that can be had. -/
def operations : Call → List Operation
  | .boot image => [.reset, .load image]
  | .bootFrom source => [.reset, .loadFrom source]
  | .pause => [.pause]
  | .resume => [.resume]
  | .isPaused => [.isPaused]
  | .frame => [.frame]
  | .takeFrame => [.takeFrame]
  | .press key => [.press key]
  | .release key => [.release key]
  | .toneActive => [.toneActive]
  | .subscribe capacity => [.subscribe capacity]
  | .inspect => [.state]
  | .receive observer => [.receive observer]
  | .unsubscribe observer => [.unsubscribe observer]
  | .start | .stop | .close | .isRunning | .poison => []

/-- A call can have the machine. Observers need no hold of it. -/
def reaches (c : Console) : Call → Bool
  | .receive _ | .unsubscribe _ => true
  | .boot _ | .bootFrom _ => c.config.validate.isOk && !c.poisoned
  | _ => !c.poisoned

theorem core_of_noOperations (c : Console) {k : Call} (h : k.operations = []) :
    (Operation.run c.machine c.supply (if k.reaches c then k.operations else [])).core =
      c.core := by
  rw [h, ite_self]
  rfl

theorem core_apply (c : Console) (k : Call) :
    (k.apply c).2.core =
      (Operation.run c.machine c.supply (if k.reaches c then k.operations else [])).core := by
  cases k with
  | boot | bootFrom =>
    refine (c.core_resetThen _).trans ?_
    unfold reaches
    cases c.config.validate.isOk && !c.poisoned <;> rfl
  | press | release =>
    refine (c.core_attempt _).trans ?_
    unfold reaches
    cases c.poisoned <;> rfl
  | pause | resume | takeFrame | subscribe =>
    refine (c.core_change _).trans ?_
    unfold reaches
    cases c.poisoned <;> rfl
  | isPaused | frame | toneActive | inspect =>
    unfold reaches
    cases c.poisoned <;> rfl
  | receive | unsubscribe => rfl
  | start => exact c.core_start.trans (core_of_noOperations c rfl).symm
  | stop => exact c.core_stop.trans (core_of_noOperations c rfl).symm
  | close => exact c.core_close.trans (core_of_noOperations c rfl).symm
  | poison => exact c.core_poison.trans (core_of_noOperations c rfl).symm
  | isRunning => exact (core_of_noOperations c rfl).symm

end Call

namespace Event

/-- The operations that an event carries out on the machine of a console. -/
def operations (c : Console) : Event → List Operation
  | .instructionTick => if c.isTicking && !c.poisoned then [.step] else []
  | .timerTick => if c.isTicking && !c.poisoned then [.tick] else []
  | .call k => if k.reaches c then k.operations else []

/-- **The machine inside a console** goes through the operations of each event and nothing else. -/
theorem core_apply (c : Console) (e : Event) :
    (e.apply c).2.core = (Operation.run c.machine c.supply (e.operations c)).core := by
  cases e with
  | call k => exact k.core_apply c
  | instructionTick =>
    refine c.core_whileTicking (fun t hp => ?_) fun t hp => ?_
    · simp only [Console.tickInstruction, Console.lock, hp, Bool.false_eq_true, if_false,
        Console.core_noteStep]
      rfl
    · simp only [Console.tickInstruction, Console.lock, hp, if_true, Console.core_giveUp]
  | timerTick =>
    refine c.core_whileTicking (fun t hp => ?_) fun t hp => ?_
    · simp only [Console.tickTimer, Console.lock, hp, Bool.false_eq_true, if_false,
        Console.core_noteTone]
      rfl
    · simp only [Console.tickTimer, Console.lock, hp, if_true, Console.core_giveUp]

theorem machine_apply (c : Console) (e : Event) :
    (e.apply c).2.machine = (Operation.run c.machine c.supply (e.operations c)).machine :=
  congrArg Prod.fst (core_apply c e)

theorem supply_apply (c : Console) (e : Event) :
    (e.apply c).2.supply = (Operation.run c.machine c.supply (e.operations c)).supply :=
  congrArg Prod.snd (core_apply c e)

/-- The operations that the machine of a console goes through while events happen. -/
def history (c : Console) : List Event → List Operation
  | [] => []
  | e :: rest => e.operations c ++ history (e.apply c).2 rest

theorem core_run (c : Console) (events : List Event) :
    (run c events).2.core = (Operation.run c.machine c.supply (history c events)).core := by
  induction events generalizing c with
  | nil => rfl
  | cons e events ih =>
    rw [history, Operation.run_append, ← machine_apply, ← supply_apply]
    exact ih (e.apply c).2

theorem machine_run (c : Console) (events : List Event) :
    (run c events).2.machine = (Operation.run c.machine c.supply (history c events)).machine :=
  congrArg Prod.fst (core_run c events)

/-- What holds of every machine that some history leads to holds of a machine inside a console. -/
theorem reachable_run (config : Config) (buzzer : Buzzer) (u : Supply) (events : List Event) :
    Reachable (run (.new config buzzer u) events).2.machine := by
  rw [machine_run]
  exact (Reachable.new config.wrap).run u _

end Event

end Chip8VM
