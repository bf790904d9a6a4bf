import Chip8VM.Proofs.Machine.Audience

/-!
# A machine and its observers, apart

What a machine computes and what its observers hold go two separate ways: an operation takes the
observers it finds, adds what its reply says (`Observers.after`), and does all the rest as it does
with any other observers (`Operation.apply_withObservers`). So two machines that differ in their
observers alone stay so (`Operation.run_withObservers`), and their observers can be compared without
looking at the machines.
-/

set_option autoImplicit false

namespace Chip8VM

/-- The machine with other observers. -/
def Machine.withObservers (m : Machine) (os : Observers) : Machine := { m with observers := os }

namespace Machine

@[simp] theorem withObservers_withObservers (m : Machine) (os os' : Observers) :
    (m.withObservers os).withObservers os' = m.withObservers os' := rfl

@[simp] theorem state_withObservers (m : Machine) (os : Observers) :
    (m.withObservers os).state = m.state := rfl

@[simp] theorem paused_withObservers (m : Machine) (os : Observers) :
    (m.withObservers os).paused = m.paused := rfl

end Machine

namespace Observers

/-- The observers after an operation with the given reply. -/
def after (os : Observers) : Operation → Reply → Observers
  | .subscribe capacity, _ => os.join capacity
  | .unsubscribe id, _ => os.leave id
  | .receive id, _ => (os.receive id).2
  | .step, .stepped (.executed c) => os.notify c
  | _, _ => os

/-- What observers answer to an operation that asks them. -/
def answer? (os : Observers) : Operation → Option Reply
  | .subscribe _ => some (.number os.joined)
  | .receive id => some (.cycle (os.receive id).1)
  | .pending id => some (.number (os.unread id).size)
  | _ => none

/-- The observers after the entries of a journal. -/
def afterAll (os : Observers) (journal : List (Operation × Reply)) : Observers :=
  journal.foldl (fun os entry => os.after entry.1 entry.2) os

end Observers

theorem Machine.step_apart (m : Machine) (u : Supply) (os : Observers) :
    (m.withObservers os).step u =
      ⟨(m.step u).reply,
        (m.step u).machine.withObservers (os.after .step (.stepped (m.step u).reply)),
        (m.step u).supply⟩ := by
  have hs := m.step_outcome u
  generalize m.step u = a at hs ⊢
  cases hs with
  | paused hp => exact step_of_paused hp
  | offMemory hp hpc => exact step_of_offMemory hp hpc
  | unknown hp hpc hn => exact step_of_unknown hp hpc hn
  | @refused i r hp hat hr =>
    rw [step_of_at (m := m.withObservers os) hp hat, state_withObservers, hr]
    cases r <;> rfl
  | overrun hp hat hn ht =>
    rw [step_of_at (m := m.withObservers os) hp hat, state_withObservers, hn]
    exact if_neg (Nat.not_lt_of_le ht)
  | executed hp hat hn ht =>
    rw [step_of_at (m := m.withObservers os) hp hat, state_withObservers, hn]
    exact if_pos ht

namespace Machine

variable (m : Machine) (os : Observers)

theorem load_apart (image : List UInt8) :
    (m.withObservers os).load image = (m.load image).map (·.withObservers os) := by
  simp only [load_eq]
  split <;> rfl

theorem loadFrom_apart (source : Reader) :
    (m.withObservers os).loadFrom source = (m.loadFrom source).map (·.withObservers os) := by
  unfold loadFrom
  cases source.readAll with
  | error reason => rfl
  | ok image => exact m.load_apart os image

theorem setKey_apart (key : UInt8) (down : Bool) :
    (m.withObservers os).setKey key down = (m.setKey key down).map (·.withObservers os) := by
  simp only [setKey_eq]
  split <;> rfl

theorem tick_apart : (m.withObservers os).tick = (m.tick.1, m.tick.2.withObservers os) := by
  by_cases hp : m.paused = true
  · simp [tick, hp]
  · simp only [tick, paused_withObservers, hp]
    rfl

theorem takeFrame_apart :
    (m.withObservers os).takeFrame = (m.takeFrame.1, m.takeFrame.2.withObservers os) := by
  by_cases hd : m.state.drawn = true
  · simp only [takeFrame, state_withObservers, hd]
    rfl
  · simp [takeFrame, hd]

end Machine

namespace Operation

theorem settle_apart (m : Machine) (u : Supply) (os : Observers) (r : Except Error Machine) :
    settle (m.withObservers os) u (r.map (·.withObservers os)) =
      ⟨(settle m u r).reply, (settle m u r).machine.withObservers os, (settle m u r).supply⟩ := by
  cases r <;> rfl

/-- **Observers have no part in what an operation does**, whatever it does to them. -/
theorem apply_withObservers (m : Machine) (u : Supply) (os : Observers) (op : Operation) :
    op.apply (m.withObservers os) u =
      ⟨(os.answer? op).getD (op.apply m u).reply,
        (op.apply m u).machine.withObservers (os.after op (op.apply m u).reply),
        (op.apply m u).supply⟩ := by
  cases op with
  | step => simp only [apply, m.step_apart u os, Observers.answer?, Option.getD_none]
  | load image =>
    rw [apply, m.load_apart os, settle_apart]
    rfl
  | loadFrom source =>
    rw [apply, m.loadFrom_apart os, settle_apart]
    rfl
  | press key | release key =>
    simp only [apply, Machine.press, Machine.release, m.setKey_apart os, settle_apart]
    rfl
  | tick =>
    simp only [apply, m.tick_apart os]
    rfl
  | takeFrame =>
    simp only [apply, m.takeFrame_apart os]
    rfl
  | _ => rfl

theorem observers_after (m : Machine) (u : Supply) (op : Operation) :
    (op.apply m u).machine.observers = m.observers.after op (op.apply m u).reply := by
  have h := congrArg (·.machine.observers) (apply_withObservers m u m.observers op)
  exact h

/-- An operation asks what an observer holds. -/
def asksObserver : Operation → Bool
  | .receive _ | .pending _ => true
  | _ => false

/-- Observers of whom as many have come answer alike to all that does not ask what they hold. -/
theorem reply_withObservers (m : Machine) (u : Supply) {os : Observers}
    (hj : os.joined = m.observers.joined) {op : Operation} (hop : op.asksObserver = false) :
    (op.apply (m.withObservers os) u).reply = (op.apply m u).reply := by
  rw [apply_withObservers]
  cases op with
  | receive | pending => cases hop
  | subscribe capacity =>
    rw [Observers.answer?, hj]
    rfl
  | _ => rfl

end Operation

namespace Observers

theorem joined_receive (os : Observers) (id : Nat) : (os.receive id).2.joined = os.joined := by
  rcases os.receive_cases id with ⟨-, hr⟩ | ⟨c, rest, -, hr⟩ <;> rw [hr]
  rfl

theorem joined_after {os os' : Observers} (h : os'.joined = os.joined) (op : Operation)
    (r : Reply) : (os'.after op r).joined = (os.after op r).joined := by
  unfold after
  split
  · exact congrArg (· + 1) h
  · exact h
  · rw [joined_receive, joined_receive, h]
  · exact h
  · exact h

end Observers

namespace Operation

/-- **Machines that differ in their observers alone** stay so, and if as many have come to both they
answer alike to all that does not ask what an observer holds. -/
theorem run_withObservers (m : Machine) (u : Supply) (os : Observers) (ops : List Operation) :
    (run (m.withObservers os) u ops).machine =
        (run m u ops).machine.withObservers (os.afterAll (journal m u ops)) ∧
      (run (m.withObservers os) u ops).supply = (run m u ops).supply ∧
      (os.joined = m.observers.joined → (∀ op ∈ ops, op.asksObserver = false) →
        (run (m.withObservers os) u ops).reply = (run m u ops).reply ∧
        (run (m.withObservers os) u ops).machine.observers.joined =
          (run m u ops).machine.observers.joined) := by
  induction ops generalizing m u os with
  | nil => exact ⟨rfl, rfl, fun hj _ => ⟨rfl, hj⟩⟩
  | cons op ops ih =>
    obtain ⟨hm, hs, halike⟩ :=
      ih (op.apply m u).machine (op.apply m u).supply (os.after op (op.apply m u).reply)
    simp only [run, apply_withObservers] at hm hs halike ⊢
    refine ⟨hm, hs, fun hj hops => ?_⟩
    have hop := reply_withObservers m u hj (hops op List.mem_cons_self)
    rw [apply_withObservers] at hop
    have hj' : (os.after op (op.apply m u).reply).joined =
        (op.apply m u).machine.observers.joined := by
      rw [observers_after]
      exact Observers.joined_after hj op _
    obtain ⟨hreply, hjoined⟩ := halike hj' fun op' hop' => hops op' (.tail _ hop')
    exact ⟨congrArg₂ List.cons hop hreply, hjoined⟩

/-! ## What observers do -/

/-- An operation asks or changes the observers alone. -/
def isOfAudience : Operation → Bool
  | .subscribe _ | .unsubscribe _ | .receive _ | .pending _ => true
  | _ => false

theorem apply_of_isOfAudience (m : Machine) (u : Supply) {op : Operation}
    (hop : op.isOfAudience = true) :
    (∃ os, (op.apply m u).machine = m.withObservers os) ∧ (op.apply m u).supply = u := by
  cases op with
  | subscribe capacity => exact ⟨⟨m.observers.join capacity, rfl⟩, rfl⟩
  | unsubscribe id => exact ⟨⟨m.observers.leave id, rfl⟩, rfl⟩
  | receive id => exact ⟨⟨(m.observers.receive id).2, rfl⟩, rfl⟩
  | pending id => exact ⟨⟨m.observers, rfl⟩, rfl⟩
  | _ => cases hop

theorem run_of_isOfAudience (m : Machine) (u : Supply) {ops : List Operation}
    (h : ∀ op ∈ ops, op.isOfAudience = true) :
    (∃ os, (run m u ops).machine = m.withObservers os) ∧ (run m u ops).supply = u := by
  induction ops generalizing m u with
  | nil => exact ⟨⟨m.observers, rfl⟩, rfl⟩
  | cons op ops ih =>
    obtain ⟨⟨os, hm⟩, hs⟩ := apply_of_isOfAudience m u (h op List.mem_cons_self)
    obtain ⟨⟨os', hm'⟩, hs'⟩ :=
      ih (op.apply m u).machine (op.apply m u).supply fun op' hop => h op' (.tail _ hop)
    have hsame : (op.apply m u).machine.withObservers os' = m.withObservers os' := by
      rw [hm, Machine.withObservers_withObservers]
    exact ⟨⟨os', hm'.trans hsame⟩, hs'.trans hs⟩

end Operation

end Chip8VM
