import Chip8VM.Proofs.Console.Core
import Chip8VM.Proofs.Machine.Screen

/-!
# What a renderer of a console shows

A renderer that takes frames from a console knows what one knows that takes them from the machine
inside (`Event.foldl_watch`), where booting a program is what resets the machine. So what was proved
there of the machine holds here too.
-/

set_option autoImplicit false

namespace Chip8VM

/-- The console turned a call away before it took hold of the machine. -/
def Reply.turnsAway : Reply → Bool
  | .failed (.clockRate _) | .failed .poisoned => true
  | _ => false

namespace Event

/-- The life of a console, each event with its reply. -/
def journal (c : Console) (events : List Event) : List (Event × Reply) :=
  events.zip (run c events).1

/-- The frame that an entry of a journal gave away, if it gave one away. -/
def taken : Event × Reply → Option Frame
  | (.call .takeFrame, .frame f) => f
  | _ => none

/-- An entry of a journal is a program that was booted, or failed to load after the reset. -/
def resets : Event × Reply → Bool
  | (.call (.boot _), r) | (.call (.bootFrom _), r) => !r.turnsAway
  | _ => false

/-- The renderer after an entry of a journal. -/
def watch (r : Renderer) (entry : Event × Reply) : Renderer := r.after (taken entry) (resets entry)

/-- A renderer that was there from the beginning of a life. -/
def renderer (c : Console) (events : List Event) : Renderer := (journal c events).foldl watch .new

end Event

/-! ## Booting -/

theorem Config.validate_error {config : Config} {e : Error} (h : config.validate = .error e) :
    (Reply.failed e).turnsAway = true := by
  rw [validate_eq] at h
  split at h <;> cases h
  rfl

namespace Machine

variable {m : Machine} {e : Error}

theorem load_error {image : List UInt8} (h : m.load image = .error e) :
    (Reply.failed e).turnsAway = false := by
  rw [load_eq] at h
  split at h <;> cases h
  rfl

theorem loadFrom_error {source : Reader} (h : m.loadFrom source = .error e) :
    (Reply.failed e).turnsAway = false := by
  unfold loadFrom at h
  cases hi : source.readAll with
  | error reason => rw [hi] at h; cases h; rfl
  | ok image => rw [hi] at h; exact load_error h

end Machine

/-- A call that resets the machine is turned away exactly if it does not reach the machine. -/
theorem Console.turnsAway_resetThen (c : Console) {prepare : Machine → Except Error Machine}
    (h : ∀ e, prepare c.machine.reset = .error e → (Reply.failed e).turnsAway = false) :
    (!(Reply.ofExcept (fun _ => .done) (c.resetThen prepare).1).turnsAway) =
      (c.config.validate.isOk && !c.poisoned) := by
  unfold resetThen lock
  cases hv : c.config.validate with
  | error e =>
    have he := Config.validate_error hv
    simp only [Except.bind, Reply.ofExcept, he]
    rfl
  | ok =>
    cases c.poisoned with
    | true => rfl
    | false =>
      simp only [Except.bind, Bool.false_eq_true, if_false]
      cases hp : prepare c.machine.reset with
      | ok m => rfl
      | error e =>
        simp only [Reply.ofExcept, h e hp]
        rfl

/-! ## The life of a console -/

namespace Event

/-- A call that resets the machine and loads a program, if it can have the machine. -/
theorem watch_boot {c : Console} {k : Call} {op : Operation} (hk : k.operations = [.reset, op])
    (hr : op ≠ .reset) (ht : op ≠ .takeFrame) (htaken : taken (call k, (k.apply c).1) = none)
    (hresets : resets (call k, (k.apply c).1) = k.reaches c) (r : Renderer) :
    watch r (call k, (k.apply c).1) =
      (Operation.journal c.machine c.supply (operations c (call k))).foldl Operation.watch r := by
  rw [watch, htaken, hresets, operations]
  cases k.reaches c with
  | true =>
    rw [if_pos rfl, hk]
    exact (Operation.foldl_watch_reset c.machine c.supply hr ht r).symm
  | false => exact r.after_none_false

theorem watch_apply (c : Console) (e : Event) (r : Renderer) :
    watch r (e, (e.apply c).1) =
      (Operation.journal c.machine c.supply (e.operations c)).foldl Operation.watch r := by
  cases e with
  | instructionTick | timerTick =>
    unfold operations
    cases c.isTicking && !c.poisoned with
    | true => rfl
    | false => exact r.after_none_false
  | call k =>
    cases k with
    -- Only these two reset the machine, and their reply tells whether they did.
    | boot image =>
      have hresets : resets (call (.boot image), ((Call.boot image).apply c).1) = _ :=
        c.turnsAway_resetThen fun _ => Machine.load_error
      exact watch_boot rfl (by simp) (by simp) rfl hresets r
    | bootFrom source =>
      have hresets : resets (call (.bootFrom source), ((Call.bootFrom source).apply c).1) = _ :=
        c.turnsAway_resetThen fun _ => Machine.loadFrom_error
      exact watch_boot rfl (by simp) (by simp) rfl hresets r
    | takeFrame =>
      have hreply : ((call .takeFrame).apply c).1 = .ofExcept .frame
          (if c.poisoned then .error .poisoned else .ok c.machine.takeFrame.1) :=
        congrArg (Reply.ofExcept .frame) (c.reply_change Machine.takeFrame)
      rw [hreply]
      unfold operations Call.reaches
      cases c.poisoned with
      | true => exact r.after_none_false
      | false => rfl
    | start | stop | close | isRunning | poison =>
      rw [operations, Call.operations, ite_self]
      exact r.after_none_false
    | receive | unsubscribe => rfl
    | _ =>
      unfold operations Call.reaches
      cases c.poisoned with
      | true => exact r.after_none_false
      | false => rfl

/-- **A renderer of a console** knows what a renderer of the machine inside knows. -/
theorem foldl_watch (c : Console) (events : List Event) (r : Renderer) :
    (journal c events).foldl watch r =
      (Operation.journal c.machine c.supply (history c events)).foldl Operation.watch r := by
  induction events generalizing c r with
  | nil => rfl
  | cons e events ih =>
    rw [history, Operation.journal_append, List.foldl_append, ← watch_apply, ← machine_apply,
      ← supply_apply]
    exact ih (e.apply c).2 _

end Event

theorem Console.takeFrame_eq_none {c : Console} (h : c.takeFrame.1 = .ok none) :
    c.machine.takeFrame.1 = none ∧ c.frame = .ok c.machine.state.frame := by
  rw [takeFrame, reply_change] at h
  rw [frame, inspect, lock]
  cases hp : c.poisoned with
  | true => rw [hp] at h; cases h
  | false =>
    rw [hp] at h
    exact ⟨Except.ok.inj h, rfl⟩

/-- **When a renderer shows the screen.** Whenever there is no frame to take, the screen is what was
taken last, or blank if the machine was reset since; so it is what was taken last unless that was
not blank and a reset came since. This goes for a machine and for a console, where booting a program
resets the machine. -/
theorem untaken_screen_is_latest_iff (wrap : Wrap) (config : Config) (buzzer : Buzzer) (u : Supply)
    (ops : List Operation) (events : List Event) :
    ((Operation.run (.new wrap) u ops).machine.takeFrame.1 = none →
      (Operation.run (.new wrap) u ops).machine.state.frame =
          (Operation.renderer (.new wrap) u ops).screen ∧
        ((Operation.run (.new wrap) u ops).machine.state.frame =
            (Operation.renderer (.new wrap) u ops).latest ↔
          ((Operation.renderer (.new wrap) u ops).missed = true →
            (Operation.renderer (.new wrap) u ops).latest = .blank))) ∧
    ((Event.run (.new config buzzer u) events).2.takeFrame.1 = .ok none →
      (Event.run (.new config buzzer u) events).2.frame =
          .ok (Event.renderer (.new config buzzer u) events).screen ∧
        ((Event.run (.new config buzzer u) events).2.frame =
            .ok (Event.renderer (.new config buzzer u) events).latest ↔
          ((Event.renderer (.new config buzzer u) events).missed = true →
            (Event.renderer (.new config buzzer u) events).latest = .blank))) := by
  constructor
  · intro h
    have hscreen : _ = (Operation.renderer (.new wrap) u ops).screen :=
      Operation.shows_run (Machine.shows_new wrap) u ops (Machine.takeFrame_eq_none_iff.1 h)
    rw [hscreen]
    exact ⟨rfl, Renderer.screen_eq_latest_iff _⟩
  · intro h
    obtain ⟨hnone, hframe⟩ := Console.takeFrame_eq_none h
    rw [Machine.takeFrame_eq_none_iff, Event.machine_run] at hnone
    have hscreen := Operation.shows_run (Machine.shows_new config.wrap) u
      (Event.history (.new config buzzer u) events) hnone
    have hshown : (Event.run (.new config buzzer u) events).2.frame =
        .ok (Event.renderer (.new config buzzer u) events).screen := by
      rw [hframe, Event.renderer, Event.foldl_watch, Event.machine_run]
      exact congrArg _ hscreen
    refine ⟨hshown, ?_⟩
    rw [hshown, Except.ok.injEq]
    exact Renderer.screen_eq_latest_iff _

theorem untaken_screen_is_latest_after_draw :
    let ops : List Operation := [.load [0xD0, 0x05], .step, .takeFrame]
    let events : List Event :=
      [.call (.boot [0xD0, 0x05]), .call .start, .instructionTick, .call .takeFrame]
    (Operation.run (.new .flat) (.ofSeed 1) ops).machine.takeFrame.1 = none ∧
      (Operation.run (.new .flat) (.ofSeed 1) ops).machine.state.frame =
        (Operation.renderer (.new .flat) (.ofSeed 1) ops).latest ∧
      (Event.run (.new {} .recorder (.ofSeed 1)) events).2.takeFrame.1 = .ok none ∧
      (Event.run (.new {} .recorder (.ofSeed 1)) events).2.frame =
        .ok (Event.renderer (.new {} .recorder (.ofSeed 1)) events).latest := by
  intro ops events
  obtain ⟨hmachine, hconsole⟩ :=
    untaken_screen_is_latest_iff .flat {} .recorder (.ofSeed 1) ops events
  have hm : (Operation.run (.new .flat) (.ofSeed 1) ops).machine.takeFrame.1 = none :=
    Machine.takeFrame_eq_none_iff.2 (by decide +kernel)
  have hc : (Event.run (.new {} .recorder (.ofSeed 1)) events).2.takeFrame.1 = .ok none := by
    have hfree : (Event.run (.new {} .recorder (.ofSeed 1)) events).2.poisoned = false := by
      decide +kernel
    have hdrawn : (Event.run (.new {} .recorder (.ofSeed 1)) events).2.machine.state.drawn =
        false := by
      decide +kernel
    rw [Console.takeFrame, Console.reply_change, hfree, Machine.takeFrame_eq_none_iff.2 hdrawn]
    rfl
  obtain ⟨-, hlatest⟩ := hmachine hm
  obtain ⟨-, hlatest'⟩ := hconsole hc
  refine ⟨hm, hlatest.2 fun h => ?_, hc, hlatest'.2 fun h => ?_⟩
  · exact absurd h (by decide +kernel)
  · exact absurd h (by decide +kernel)

end Chip8VM
