import Chip8VM.Proofs.Machine.Run

/-!
# What an operation changes

`Machine.Change m op m'` lists what an operation other than a step can make of a machine. Whatever
such an operation leaves alone is read off by cases on it (`Operation.change`).
-/

set_option autoImplicit false

namespace Chip8VM

/-- An operation is one of an observer that comes, leaves or reads. -/
def Operation.isOfObserver : Operation → Bool
  | .subscribe _ | .unsubscribe _ | .receive _ => true
  | _ => false

/-- What an operation other than a step can make of a machine. -/
inductive Machine.Change (m : Machine) : Operation → Machine → Prop
  | nothing {op : Operation} : op ≠ .reset → Change m op m
  | reset : Change m .reset m.reset
  | load (image : List UInt8) : Change m (.load image) (m.loaded image)
  | loadFrom (source : Reader) (image : List UInt8) : Change m (.loadFrom source) (m.loaded image)
  | tick (delay sound : UInt8) : Change m .tick { m with state := { m.state with delay, sound } }
  | press (key : UInt8) (k : Fin 16) : Change m (.press key) (m.keyed k true)
  | release (key : UInt8) (k : Fin 16) : Change m (.release key) (m.keyed k false)
  | takeFrame : Change m .takeFrame { m with state := { m.state with drawn := false } }
  | pause : Change m .pause m.pause
  | resume : Change m .resume m.resume
  | observers {op : Operation} (os : Observers) : op.isOfObserver = true →
      Change m op { m with observers := os }

namespace Machine

variable {m m' : Machine}

theorem change_load {image : List UInt8} (h : m.load image = .ok m') : m' = m.loaded image := by
  rw [load_eq] at h
  split at h <;> cases h
  rfl

theorem change_loadFrom {source : Reader} (h : m.loadFrom source = .ok m') :
    ∃ image, m' = m.loaded image := by
  unfold loadFrom at h
  cases hi : source.readAll with
  | error e => rw [hi] at h; cases h
  | ok image => rw [hi] at h; exact ⟨image, change_load h⟩

theorem change_setKey {key : UInt8} {down : Bool} (h : m.setKey key down = .ok m') :
    ∃ k, m' = m.keyed k down := by
  rw [setKey_eq] at h
  split at h <;> cases h
  exact ⟨_, rfl⟩

end Machine

theorem Operation.change (m : Machine) (u : Supply) {op : Operation} (hs : op ≠ .step) :
    m.Change op (op.apply m u).machine := by
  cases op with
  | step => exact absurd rfl hs
  | reset => exact .reset
  | load image =>
    exact settle_machine (.nothing (by simp)) fun m' h => Machine.change_load h ▸ .load image
  | loadFrom source =>
    refine settle_machine (.nothing (by simp)) fun m' h => ?_
    obtain ⟨image, rfl⟩ := Machine.change_loadFrom h
    exact .loadFrom source image
  | press key =>
    refine settle_machine (.nothing (by simp)) fun m' h => ?_
    obtain ⟨k, rfl⟩ := Machine.change_setKey h
    exact .press key k
  | release key =>
    refine settle_machine (.nothing (by simp)) fun m' h => ?_
    obtain ⟨k, rfl⟩ := Machine.change_setKey h
    exact .release key k
  | tick =>
    simp only [apply, Machine.tick]
    split
    · exact .nothing (by simp)
    · exact .tick _ _
  | takeFrame =>
    simp only [apply, Machine.takeFrame]
    split
    · exact .takeFrame
    · exact .nothing (by simp)
  | pause => exact .pause
  | resume => exact .resume
  | subscribe capacity => exact .observers (m.observers.join capacity) rfl
  | unsubscribe id => exact .observers (m.observers.leave id) rfl
  | receive id => exact .observers (m.observers.receive id).2 rfl
  | _ => exact .nothing (by simp)

/-- Only a step and the operations of observers touch the observers. -/
theorem Operation.observers_apply (m : Machine) (u : Supply) {op : Operation} (hs : op ≠ .step)
    (ho : op.isOfObserver = false) : (op.apply m u).machine.observers = m.observers := by
  have hc := change m u hs
  generalize (op.apply m u).machine = m' at hc ⊢
  cases hc with
  | observers os hop => rw [ho] at hop; cases hop
  | _ => rfl

/-- Without a pause a machine that is not paused does not become so. -/
theorem Operation.unpaused_run {m : Machine} (hp : m.paused = false) (u : Supply)
    {ops : List Operation} (hops : .pause ∉ ops) : (run m u ops).machine.paused = false := by
  induction ops generalizing m u with
  | nil => exact hp
  | cons op ops ih =>
    rw [List.mem_cons, not_or] at hops
    obtain ⟨hop, hrest⟩ := hops
    refine ih ?_ _ hrest
    by_cases hs : op = .step
    · subst hs
      exact (m.paused_step u).trans hp
    · have hc := change m u hs
      generalize (op.apply m u).machine = m' at hc ⊢
      cases hc with
      | pause => exact absurd rfl hop
      | reset | resume => rfl
      | _ => exact hp

end Chip8VM
