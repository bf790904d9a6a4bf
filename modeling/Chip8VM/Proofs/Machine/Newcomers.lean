import Chip8VM.Proofs.Machine.Apart

/-!
# Newcomers

Observers are numbered as they come, so one that comes late to a machine has another number than it
would have on a new one, and that is all the difference the earlier ones make to it.
`Machine.since k` is the machine without the first `k` observers; it does what the whole machine
does, once what those `k` do is left out and the others are counted from 0 (`Operation.run_since`).
-/

set_option autoImplicit false

namespace Chip8VM

/-- The observer as it is counted if the first `k` are not. -/
def Observer.since (k : Nat) (o : Observer) : Observer := { o with id := o.id - k }

namespace Observers

/-- The observers without the first `k` that came. -/
def since (k : Nat) (os : Observers) : Observers :=
  ⟨(os.present.filter fun o => k ≤ o.id).map (·.since k), os.joined - k⟩

variable {k : Nat} {os : Observers}

theorem since_join (h : k ≤ os.joined) (capacity : Nat) :
    (os.join capacity).since k = (os.since k).join capacity := by
  have hjoined : os.joined + 1 - k = os.joined - k + 1 := by omega
  simp [since, join, Observer.since, h, hjoined]

theorem since_notify (c : Cycle) : (os.notify c).since k = (os.since k).notify c := by
  have hoffer : ∀ o : Observer, (o.offer c).since k = (o.since k).offer c := fun o => by
    unfold Observer.offer Observer.since
    split <;> rfl
  have hgone : ∀ o : Observer, (o.since k).gone = o.gone := fun _ => rfl
  have hpresent : ∀ os : List Observer,
      (((os.filter (!·.gone)).map (·.offer c)).filter fun o => k ≤ o.id).map (·.since k) =
        (((os.filter fun o => k ≤ o.id).map (·.since k)).filter (!·.gone)).map (·.offer c) := by
    -- Whether an observer is gone and which number it has do not depend on what it is offered.
    intro os
    induction os with
    | nil => rfl
    | cons o os ih =>
      by_cases hg : o.gone = true <;> by_cases hk : k ≤ o.id <;>
        simp [hg, hk, id_offer, hoffer, hgone, ih]
  simp only [since, notify, hpresent]

section

variable {f : Observer → Observer} (hid : ∀ o, (f o).id = o.id)
include hid

theorem present_since_update (id : Nat) : ((os.update id f).since k).present =
    ((os.present.filter fun o => k ≤ o.id).map fun o => if o.id == id then f o else o).map
      (·.since k) := by
  have hcomp : ((fun o : Observer => decide (k ≤ o.id)) ∘ fun o => if o.id == id then f o else o) =
      fun o => decide (k ≤ o.id) := by
    funext o
    simp only [Function.comp, apply_ite Observer.id, hid, ite_self]
  simp only [since, update, List.filter_map, hcomp]

/-- What is done to an observer that came first is not done to those that came later. -/
theorem since_update_of_lt {id : Nat} (h : id < k) : (os.update id f).since k = os.since k := by
  refine congrArg₂ mk ((present_since_update hid id).trans (congrArg _ ?_)) rfl
  refine (List.map_congr_left fun o ho => ?_).trans (List.map_id _)
  have hk : k ≤ o.id := of_decide_eq_true (List.mem_filter.1 ho).2
  have hne : (o.id == id) = false := beq_false_of_ne (by omega)
  rw [hne]
  rfl

/-- What is done to an observer that came later is done to it however it is counted. -/
theorem since_update_of_le (hf : ∀ o, (f o).since k = f (o.since k)) {id : Nat} (h : k ≤ id) :
    (os.update id f).since k = (os.since k).update (id - k) f := by
  refine congrArg₂ mk ((present_since_update hid id).trans ?_) rfl
  rw [since, List.map_map, List.map_map]
  refine List.map_congr_left fun o ho => ?_
  have hk : k ≤ o.id := of_decide_eq_true (List.mem_filter.1 ho).2
  have hsame : ((o.since k).id == id - k) = (o.id == id) := by
    have hnumber : (o.since k).id = o.id - k := rfl
    rw [hnumber, Bool.eq_iff_iff, beq_iff_eq, beq_iff_eq]
    omega
  simp only [Function.comp, hsame, apply_ite (Observer.since k), hf]

end

theorem find?_since {id : Nat} (h : k ≤ id) :
    (os.since k).find? (id - k) = (os.find? id).map (·.since k) := by
  unfold find? since
  induction os.present with
  | nil => rfl
  | cons o os ih =>
    by_cases ho : o.id = id
    · subst ho
      simp [h, Observer.since]
    · by_cases hk : k ≤ o.id
      · have hne : o.id - k ≠ id - k := by omega
        simpa [ho, hk, hne, Observer.since] using ih
      · simpa [ho, hk] using ih

theorem unread_since {id : Nat} (h : k ≤ id) : (os.since k).unread (id - k) = os.unread id := by
  rw [unread, find?_since h, unread, Option.map_map]
  rfl

theorem since_leave_of_lt {id : Nat} (h : id < k) : (os.leave id).since k = os.since k := by
  refine since_update_of_lt (fun _ => ?_) h
  rfl

theorem since_leave_of_le {id : Nat} (h : k ≤ id) :
    (os.leave id).since k = (os.since k).leave (id - k) := by
  refine since_update_of_le (fun _ => ?_) (fun _ => ?_) h <;> rfl

theorem since_dropOldest_of_lt {id : Nat} (h : id < k) :
    (os.update id Observer.dropOldest).since k = os.since k := by
  refine since_update_of_lt (fun _ => ?_) h
  rfl

theorem since_dropOldest_of_le {id : Nat} (h : k ≤ id) :
    (os.update id Observer.dropOldest).since k =
      (os.since k).update (id - k) Observer.dropOldest := by
  refine since_update_of_le (fun _ => ?_) (fun _ => ?_) h <;> rfl

theorem since_receive_of_lt {id : Nat} (h : id < k) : (os.receive id).2.since k = os.since k := by
  rcases os.receive_cases id with ⟨-, hr⟩ | ⟨c, rest, -, hr⟩ <;> rw [hr]
  exact since_dropOldest_of_lt h

theorem since_receive_of_le {id : Nat} (h : k ≤ id) :
    (os.since k).receive (id - k) = ((os.receive id).1, (os.receive id).2.since k) := by
  unfold receive
  rw [unread_since h]
  cases (os.unread id)[0]? with
  | none => rfl
  | some c => exact congrArg (some c, ·) (since_dropOldest_of_le h).symm

theorem Numbered.since_joined (h : os.Numbered) : os.since os.joined = empty := by
  have hnone : (os.present.filter fun o => os.joined ≤ o.id) = [] := by
    rw [List.filter_eq_nil_iff]
    intro o ho hle
    have hlt := h.below o.id (List.mem_map_of_mem ho)
    rw [decide_eq_true_eq] at hle
    omega
  rw [since, hnone, Nat.sub_self]
  rfl

end Observers

/-! ## A machine without its first observers -/

/-- The machine without the first `k` observers that came. -/
def Machine.since (k : Nat) (m : Machine) : Machine := m.withObservers (m.observers.since k)

namespace Operation

/-- The operation as it is put to a machine without the first `k` observers, if it is. -/
def since? (k : Nat) : Operation → Option Operation
  | .unsubscribe id => if k ≤ id then some (.unsubscribe (id - k)) else none
  | .receive id => if k ≤ id then some (.receive (id - k)) else none
  | .pending id => if k ≤ id then some (.pending (id - k)) else none
  | op => some op

/-- The reply as a machine without the first `k` observers gives it. -/
def replySince (k : Nat) : Operation → Reply → Reply
  | .subscribe _, .number n => .number (n - k)
  | _, r => r

/-- An entry of a journal as a machine without the first `k` observers has it, if it does. -/
def entrySince? (k : Nat) (entry : Operation × Reply) : Option (Operation × Reply) :=
  (entry.1.since? k).map (·, entry.1.replySince k entry.2)

theorem joined_apply (m : Machine) (u : Supply) (op : Operation) :
    m.observers.joined ≤ (op.apply m u).machine.observers.joined := by
  rw [observers_after]
  unfold Observers.after
  split
  · exact Nat.le_succ _
  · exact Nat.le_refl _
  · exact Nat.le_of_eq (Observers.joined_receive _ _).symm
  · exact Nat.le_refl _
  · exact Nat.le_refl _

/-- What one of the first observers does is not seen without them. -/
theorem apply_of_since?_none {m : Machine} {k : Nat} {op : Operation} (hop : op.since? k = none)
    (u : Supply) : (op.apply m u).machine.since k = m.since k ∧ (op.apply m u).supply = u := by
  cases op with
  | unsubscribe id =>
    have hlt : id < k := Nat.lt_of_not_le fun hle => by rw [since?, if_pos hle] at hop; cases hop
    exact ⟨congrArg m.withObservers (Observers.since_leave_of_lt hlt), rfl⟩
  | receive id =>
    have hlt : id < k := Nat.lt_of_not_le fun hle => by rw [since?, if_pos hle] at hop; cases hop
    exact ⟨congrArg m.withObservers (Observers.since_receive_of_lt hlt), rfl⟩
  | pending id => exact ⟨rfl, rfl⟩
  | _ => cases hop

/-- Anything else goes without them as it goes with them. -/
theorem apply_of_since?_some {m : Machine} {k : Nat} (hk : k ≤ m.observers.joined)
    {op op' : Operation} (hop : op.since? k = some op') (u : Supply) :
    op'.apply (m.since k) u = ⟨op.replySince k (op.apply m u).reply,
      (op.apply m u).machine.since k, (op.apply m u).supply⟩ := by
  have hle : ∀ {id : Nat} {o : Operation}, (if k ≤ id then some o else none) = some op' →
      k ≤ id ∧ o = op' := by
    intro id o h
    split at h
    · exact ⟨by assumption, Option.some.inj h⟩
    · cases h
  cases op with
  | unsubscribe id =>
    obtain ⟨hid, rfl⟩ := hle hop
    exact congrArg (fun os => (⟨.done, m.withObservers os, u⟩ : After Reply))
      (Observers.since_leave_of_le hid).symm
  | receive id =>
    obtain ⟨hid, rfl⟩ := hle hop
    exact congrArg (fun r => (⟨.cycle r.1, m.withObservers r.2, u⟩ : After Reply))
      (Observers.since_receive_of_le hid)
  | pending id =>
    obtain ⟨hid, rfl⟩ := hle hop
    exact congrArg (fun unread => (⟨.number unread.size, m.since k, u⟩ : After Reply))
      (Observers.unread_since hid)
  | subscribe capacity =>
    cases hop
    exact congrArg
      (fun os => (⟨.number (m.observers.joined - k), m.withObservers os, u⟩ : After Reply))
      (Observers.since_join hk capacity).symm
  | step =>
    cases hop
    have hafter : ∀ s : Step, (m.observers.since k).after .step (.stepped s) =
        (m.observers.after .step (.stepped s)).since k := by
      intro s
      cases s with
      | executed c => exact (Observers.since_notify c).symm
      | _ => rfl
    have hreply : (apply m u .step).reply = .stepped (m.step u).reply := rfl
    rw [Machine.since, apply_withObservers, Machine.since, observers_after, hreply, hafter]
    rfl
  | _ =>
    cases hop
    rw [Machine.since, apply_withObservers, Machine.since, observers_after]
    rfl

/-- **A machine without its first observers** does what the machine does, once what those do is left
out and the others are counted from 0. -/
theorem run_since {m : Machine} {k : Nat} (hk : k ≤ m.observers.joined) (u : Supply)
    (ops : List Operation) :
    (run (m.since k) u (ops.filterMap (since? k))).machine = (run m u ops).machine.since k ∧
      (run (m.since k) u (ops.filterMap (since? k))).supply = (run m u ops).supply ∧
      journal (m.since k) u (ops.filterMap (since? k)) =
        (journal m u ops).filterMap (entrySince? k) := by
  induction ops generalizing m u with
  | nil => exact ⟨rfl, rfl, rfl⟩
  | cons op ops ih =>
    obtain ⟨hm, hs, hjournal⟩ := ih (Nat.le_trans hk (joined_apply m u op)) (op.apply m u).supply
    cases hop : op.since? k with
    | none =>
      obtain ⟨hsame, hsupply⟩ := apply_of_since?_none hop u
      have hentry : ∀ r, entrySince? k (op, r) = none := fun r => by rw [entrySince?, hop]; rfl
      rw [List.filterMap_cons_none hop, journal_cons, List.filterMap_cons_none (hentry _)]
      rw [hsame, hsupply] at hm hs hjournal
      rw [run, hsupply]
      exact ⟨hm, hs, hjournal⟩
    | some op' =>
      have happly := apply_of_since?_some hk hop u
      have hentry : ∀ r, entrySince? k (op, r) = some (op', op.replySince k r) := fun r => by
        rw [entrySince?, hop]
        rfl
      rw [List.filterMap_cons_some hop, journal_cons, journal_cons,
        List.filterMap_cons_some (hentry _), run, happly]
      exact ⟨hm, hs, congrArg _ hjournal⟩

end Operation

/-- A reset machine is a new one to those who come to it afterwards. -/
theorem Machine.since_reset {m : Machine} (hn : m.observers.Numbered) :
    m.reset.since m.observers.joined = .new m.wrap := by
  rw [since, reset, hn.since_joined]
  rfl

end Chip8VM
