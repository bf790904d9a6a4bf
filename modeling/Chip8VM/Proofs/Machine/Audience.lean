import Chip8VM.Proofs.Machine.Change
import Chip8VM.Proofs.Machine.Inbox

/-!
# The observers of a machine

`AudienceChange` lists what an operation can do to the observers. From it follow, one entry of a
journal at a time and then for whole histories, who is on the list (`Operation.live_run`: those who
came and did not leave, in the order in which they came) and what each of them gets
(`Operation.inbox_run`: what an ideal inbox gets that no other observer has a part in).
-/

set_option autoImplicit false

namespace Chip8VM

namespace Observers

/-- The numbers of those on the list, in its order. -/
def ids (os : Observers) : List Nat := os.present.map (·.id)

/-- The numbers of those on the list who have not left, in its order. -/
def live (os : Observers) : List Nat := (os.present.filter (!·.gone)).map (·.id)

/-- The observers are numbered in the order in which they came, each with a number of its own. -/
structure Numbered (os : Observers) : Prop where
  sorted : os.ids.Pairwise (· < ·)
  below : ∀ id ∈ os.ids, id < os.joined

section

variable {os os' : Observers} {o : Observer} {id : Nat}

/-! ## The list -/

theorem numbered_empty : empty.Numbered := ⟨.nil, fun _ h => nomatch h⟩

theorem Numbered.of_sublist (h : os.Numbered) (hs : os'.ids.Sublist os.ids)
    (hj : os'.joined = os.joined) : os'.Numbered :=
  ⟨h.sorted.sublist hs, fun id hid => hj ▸ h.below id (hs.subset hid)⟩

theorem ids_join (os : Observers) (capacity : Nat) :
    (os.join capacity).ids = os.ids ++ [os.joined] := by
  simp [ids, join]

theorem Numbered.join (h : os.Numbered) (capacity : Nat) : (os.join capacity).Numbered := by
  refine ⟨?_, fun id hid => ?_⟩
  · rw [ids_join, List.pairwise_append]
    refine ⟨h.sorted, List.pairwise_singleton _ _, fun id hid joined hj => ?_⟩
    rw [List.mem_singleton.1 hj]
    exact h.below id hid
  · rw [ids_join, List.mem_append, List.mem_singleton] at hid
    rcases hid with hid | rfl
    · exact Nat.lt_succ_of_lt (h.below id hid)
    · exact Nat.lt_succ_self _

theorem ids_update (os : Observers) (id : Nat) {f : Observer → Observer}
    (hf : ∀ o, (f o).id = o.id) : (os.update id f).ids = os.ids := by
  rw [ids, update, List.map_map]
  refine List.map_congr_left fun o _ => ?_
  simp only [Function.comp]
  split
  · exact hf o
  · rfl

theorem ids_leave (os : Observers) (id : Nat) : (os.leave id).ids = os.ids :=
  ids_update os id fun _ => rfl

theorem id_offer (o : Observer) (c : Cycle) : (o.offer c).id = o.id := by
  unfold Observer.offer
  split <;> rfl

theorem gone_offer (o : Observer) (c : Cycle) : (o.offer c).gone = o.gone := by
  unfold Observer.offer
  split <;> rfl

/-- A cycle takes those who left off the list, and nobody else. -/
theorem ids_notify (os : Observers) (c : Cycle) : (os.notify c).ids = os.live := by
  rw [ids, notify, List.map_map]
  exact List.map_congr_left fun o _ => id_offer o c

theorem live_sublist (os : Observers) : os.live.Sublist os.ids :=
  List.filter_sublist.map _

theorem live_join (os : Observers) (capacity : Nat) :
    (os.join capacity).live = os.live ++ [os.joined] := by
  simp [live, join]

theorem live_notify (os : Observers) (c : Cycle) : (os.notify c).live = os.live := by
  rw [← ids_notify os c, live, ids, List.filter_eq_self.2]
  intro o ho
  obtain ⟨o', ho', rfl⟩ := List.mem_map.1 ho
  rw [gone_offer]
  exact (List.mem_filter.1 ho').2

theorem live_update (os : Observers) (id : Nat) {f : Observer → Observer}
    (hid : ∀ o, (f o).id = o.id) (hgone : ∀ o, (f o).gone = o.gone) :
    (os.update id f).live = os.live := by
  rw [live, update, List.filter_map, List.map_map, live]
  have hfilter : os.present.filter ((!·.gone) ∘ fun o => if o.id == id then f o else o) =
      os.present.filter (!·.gone) := by
    refine List.filter_congr fun o _ => ?_
    simp only [Function.comp, apply_ite Observer.gone, hgone, ite_self]
  rw [hfilter]
  refine List.map_congr_left fun o _ => ?_
  simp only [Function.comp, apply_ite Observer.id, hid, ite_self]

theorem live_leave (os : Observers) (id : Nat) :
    (os.leave id).live = os.live.filter (· ≠ id) := by
  rw [live, leave, update, List.filter_map, List.map_map, live, List.filter_map, List.filter_filter]
  have hfilter : os.present.filter ((!·.gone) ∘ fun o =>
        if o.id == id then { o with gone := true } else o) =
      os.present.filter fun o => ((· ≠ id) ∘ (·.id)) o && !o.gone := by
    refine List.filter_congr fun o _ => ?_
    by_cases ho : o.id = id <;> simp [ho]
  rw [hfilter]
  refine List.map_congr_left fun o _ => ?_
  simp only [Function.comp, apply_ite Observer.id, ite_self]

/-! ## What they hold -/

theorem Numbered.find?_eq (h : os.Numbered) (ho : o ∈ os.present) : os.find? o.id = some o := by
  obtain ⟨front, rest, hsplit⟩ := List.append_of_mem ho
  have hsorted := h.sorted
  rw [ids, hsplit, List.map_append, List.pairwise_append] at hsorted
  rw [find?, hsplit, List.find?_append, List.find?_eq_none.2, List.find?_cons_of_pos]
  · rfl
  · exact beq_self_eq_true _
  · intro o' ho' heq
    have hlt := hsorted.2.2 o'.id (List.mem_map_of_mem ho') o.id List.mem_cons_self
    exact absurd (beq_iff_eq.1 heq) (Nat.ne_of_lt hlt)

theorem Numbered.unread_eq (h : os.Numbered) (ho : o ∈ os.present) :
    os.unread o.id = o.unread := by
  rw [unread, h.find?_eq ho]
  rfl

theorem mem_update (ho : o ∈ os.present) (id : Nat) (f : Observer → Observer) :
    (if o.id == id then f o else o) ∈ (os.update id f).present :=
  List.mem_map_of_mem (f := fun o => if o.id == id then f o else o) ho

theorem mem_notify (ho : o ∈ os.present) (hg : o.gone = false) (c : Cycle) :
    o.offer c ∈ (os.notify c).present :=
  List.mem_map_of_mem (List.mem_filter.2 ⟨ho, by rw [hg]; rfl⟩)

theorem unread_update (os : Observers) (id k : Nat) {f : Observer → Observer}
    (hf : ∀ o, (f o).id = o.id) :
    (os.update id f).unread k =
      if k = id then ((os.find? k).map fun o => (f o).unread).getD #[] else os.unread k := by
  have hfind : (os.update id f).find? k =
      (os.find? k).map fun o => if o.id == id then f o else o := by
    rw [find?, update, List.find?_map, find?]
    congr 2
    funext o
    simp only [Function.comp, apply_ite Observer.id, hf, ite_self]
  rw [unread, hfind, unread]
  cases hk : os.find? k with
  | none => simp
  | some o =>
    have ho : o.id = k := by simpa using List.find?_some hk
    by_cases h : k = id <;> simp [ho, h]

theorem unread_join (os : Observers) (capacity id : Nat) :
    (os.join capacity).unread id = os.unread id := by
  rw [unread, find?, join, List.find?_append, unread, find?]
  cases os.present.find? (·.id == id) with
  | some o => rfl
  | none => by_cases h : os.joined = id <;> simp [h]

theorem unread_leave (os : Observers) (id k : Nat) : (os.leave id).unread k = os.unread k := by
  rw [leave, unread_update]
  · exact ite_self _
  · exact fun _ => rfl

end

end Observers

/-- The observer once it has read its oldest cycle. -/
def Observer.dropOldest (o : Observer) : Observer :=
  { o with unread := o.unread.extract 1 o.unread.size }

theorem Observer.dropOldest_of_nil {o : Observer} (h : o.unread.toList = []) :
    o.dropOldest = o := by
  obtain ⟨id, capacity, unread, gone⟩ := o
  obtain rfl : unread = #[] := Array.toList_eq_nil_iff.1 h
  rfl

theorem Observer.toList_dropOldest (o : Observer) :
    o.dropOldest.unread.toList = o.unread.toList.drop 1 := by
  rw [dropOldest, Array.toList_extract, List.extract, List.take_of_length_le]
  simp

namespace Observers

theorem ids_dropOldest (os : Observers) (id : Nat) :
    (os.update id Observer.dropOldest).ids = os.ids := ids_update os id fun _ => rfl

theorem live_dropOldest (os : Observers) (id : Nat) :
    (os.update id Observer.dropOldest).live = os.live :=
  live_update os id (fun _ => rfl) fun _ => rfl

theorem unread_dropOldest (os : Observers) (id k : Nat) :
    ((os.update id Observer.dropOldest).unread k).toList =
      if k = id then (os.unread k).toList.drop 1 else (os.unread k).toList := by
  rw [unread_update]
  · split
    · rw [unread]
      cases os.find? k with
      | none => rfl
      | some o => exact o.toList_dropOldest
    · rfl
  · exact fun _ => rfl

/-- A read finds nothing, or it takes the oldest cycle away. -/
theorem receive_cases (os : Observers) (id : Nat) :
    (os.unread id).toList = [] ∧ os.receive id = (none, os) ∨
      ∃ c rest, (os.unread id).toList = c :: rest ∧
        os.receive id = (some c, os.update id Observer.dropOldest) := by
  unfold receive
  cases hu : (os.unread id).toList with
  | nil =>
    have h0 : (os.unread id)[0]? = none := by rw [← Array.getElem?_toList, hu]; rfl
    exact .inl ⟨rfl, by rw [h0]⟩
  | cons c rest =>
    have h0 : (os.unread id)[0]? = some c := by rw [← Array.getElem?_toList, hu]; rfl
    exact .inr ⟨c, rest, rfl, by rw [h0]; rfl⟩

theorem fst_receive (os : Observers) (id : Nat) :
    (os.receive id).1.toList = (os.unread id).toList.take 1 := by
  rcases os.receive_cases id with ⟨hu, hr⟩ | ⟨c, rest, hu, hr⟩ <;> rw [hu, hr] <;> rfl

theorem mem_receive {os : Observers} (hn : os.Numbered) {o : Observer} (ho : o ∈ os.present)
    (id : Nat) : (if o.id = id then o.dropOldest else o) ∈ (os.receive id).2.present := by
  rcases os.receive_cases id with ⟨hu, hr⟩ | ⟨c, rest, hu, hr⟩ <;> rw [hr]
  · split
    · next hid =>
      subst hid
      rw [hn.unread_eq ho] at hu
      rwa [Observer.dropOldest_of_nil hu]
    · exact ho
  · simpa only [beq_iff_eq] using mem_update ho id Observer.dropOldest

end Observers

/-! ## One operation -/

/-- What an operation, with its reply, can do to the observers. -/
inductive AudienceChange (os : Observers) : Operation → Reply → Observers → Prop
  | join (capacity : Nat) :
      AudienceChange os (.subscribe capacity) (.number os.joined) (os.join capacity)
  | leave (id : Nat) : AudienceChange os (.unsubscribe id) .done (os.leave id)
  | receive (id : Nat) :
      AudienceChange os (.receive id) (.cycle (os.receive id).1) (os.receive id).2
  | notify (c : Cycle) : AudienceChange os .step (.stepped (.executed c)) (os.notify c)
  | keep {op : Operation} {r : Reply} : op.isOfObserver = false → r.cycles = [] →
      AudienceChange os op r os

theorem Reply.cycles_eq_nil {r : Reply} (h : ∀ s, r ≠ .stepped s) : r.cycles = [] := by
  unfold cycles
  split
  · exact absurd rfl (h _)
  · rfl

/-- **What one operation does to the observers.** -/
theorem Operation.audienceChange (m : Machine) (u : Supply) (op : Operation) :
    AudienceChange m.observers op (op.apply m u).reply (op.apply m u).machine.observers := by
  by_cases hs : op = .step
  · subst hs
    have ho := m.step_outcome u
    simp only [apply]
    generalize m.step u = a at ho
    cases ho with
    | executed => exact .notify _
    | @refused i r => cases r <;> exact .keep rfl rfl
    | _ => exact .keep rfl rfl
  cases ho : op.isOfObserver with
  | false =>
    rw [observers_apply m u hs ho]
    exact .keep ho (Reply.cycles_eq_nil (reply_ne_stepped m u hs))
  | true =>
    cases op with
    | subscribe capacity => exact .join capacity
    | unsubscribe id => exact .leave id
    | receive id => exact .receive id
    | _ => cases ho

/-- Who is on the list after an operation, and how many have come. -/
def Operation.rosterAfter (roster : List Nat × Nat) : Operation → List Nat × Nat
  | .subscribe _ => (roster.1 ++ [roster.2], roster.2 + 1)
  | .unsubscribe id => (roster.1.filter (· ≠ id), roster.2)
  | _ => roster

namespace AudienceChange

variable {os os' : Observers} {op : Operation} {r : Reply}

theorem numbered (h : AudienceChange os op r os') (hn : os.Numbered) : os'.Numbered := by
  cases h with
  | join capacity => exact hn.join capacity
  | leave id => exact hn.of_sublist (os.ids_leave id ▸ .refl _) rfl
  | receive id =>
    rcases os.receive_cases id with ⟨-, hr⟩ | ⟨c, rest, -, hr⟩ <;> rw [hr]
    · exact hn
    · exact hn.of_sublist (os.ids_dropOldest id ▸ .refl _) rfl
  | notify c => exact hn.of_sublist (os.ids_notify c ▸ os.live_sublist) rfl
  | keep => exact hn

theorem roster (h : AudienceChange os op r os') :
    (os'.live, os'.joined) = op.rosterAfter (os.live, os.joined) := by
  cases h with
  | join capacity => rw [Observers.live_join]; rfl
  | leave id => rw [Observers.live_leave]; rfl
  | receive id =>
    rcases os.receive_cases id with ⟨-, hr⟩ | ⟨c, rest, -, hr⟩ <;> rw [hr]
    · rfl
    · rw [Observers.live_dropOldest]
      rfl
  | notify c => rw [Observers.live_notify]; rfl
  | keep ho _ =>
    cases op with
    | subscribe | unsubscribe => cases ho
    | _ => rfl

/-- **Only a completed instruction brings a cycle.** After anything else an observer has read and
holds what it held before. -/
theorem unread (h : AudienceChange os op r os') (hr : r.cycles = []) (id : Nat) :
    Operation.reads id (op, r) ++ (os'.unread id).toList = (os.unread id).toList := by
  cases h with
  | join capacity => rw [Observers.unread_join]; rfl
  | leave k => rw [Observers.unread_leave]; rfl
  | receive k =>
    rcases os.receive_cases k with ⟨-, hread⟩ | ⟨c, rest, hu, hread⟩ <;> rw [hread]
    · simp [Operation.reads]
    · rw [Observers.unread_dropOldest, Operation.reads]
      by_cases hk : k = id
      · subst hk
        simp [hu]
      · simp [hk, Ne.symm hk]
  | notify c => cases hr
  | keep ho _ =>
    cases op with
    | receive => cases ho
    | _ => rfl

end AudienceChange

/-- The inbox of an observer that has read these cycles. -/
def Observer.inbox (o : Observer) (read : List Cycle) : Inbox := ⟨read, o.unread.toList⟩

/-- It is the same observer, and it has not left. -/
structure Observer.Stays (o o' : Observer) : Prop where
  id : o'.id = o.id
  capacity : o'.capacity = o.capacity
  gone : o'.gone = false

theorem Observer.inbox_offer (o : Observer) (read : List Cycle) (c : Cycle) :
    (o.inbox read).offer o.capacity c = (o.offer c).inbox read := by
  unfold Inbox.offer Observer.offer inbox
  simp only [Array.length_toList]
  split
  · simp
  · rfl

theorem Observer.inbox_next (o : Observer) (read : List Cycle) :
    (o.inbox read).next = o.dropOldest.inbox (read ++ o.unread.toList.take 1) := by
  rw [Inbox.next, inbox, inbox, toList_dropOldest]

/-- An entry that reports no cycle and reads nothing leaves every inbox alone. -/
theorem Observer.inbox_kept (o : Observer) {op : Operation} {r : Reply} (hr : r.cycles = [])
    (hop : ∀ k, op ≠ .receive k) (read : List Cycle) :
    (o.inbox read).after o.id o.capacity (op, r) =
      o.inbox (read ++ Operation.reads o.id (op, r)) := by
  rw [Operation.reads_of_ne hop, List.append_nil, Inbox.after, hr, if_neg (hop o.id)]
  rfl

/-- **What one operation does to an observer** that does not leave is what it does to an ideal
inbox. -/
theorem AudienceChange.inbox {os os' : Observers} {op : Operation} {r : Reply}
    (h : AudienceChange os op r os') (hn : os.Numbered) {o : Observer} (ho : o ∈ os.present)
    (hg : o.gone = false) (hop : op ≠ .unsubscribe o.id) :
    ∃ o' ∈ os'.present, o.Stays o' ∧ ∀ read, (o.inbox read).after o.id o.capacity (op, r) =
      o'.inbox (read ++ Operation.reads o.id (op, r)) := by
  have hstays : o.Stays o := ⟨rfl, rfl, hg⟩
  cases h with
  | join capacity =>
    exact ⟨o, List.mem_append_left _ ho, hstays, o.inbox_kept rfl fun _ h => nomatch h⟩
  | leave k =>
    have hk : o.id ≠ k := fun hk => hop (congrArg Operation.unsubscribe hk.symm)
    have hmem := Observers.mem_update ho k fun o => { o with gone := true }
    rw [if_neg (by simpa using hk)] at hmem
    exact ⟨o, hmem, hstays, o.inbox_kept rfl fun _ h => nomatch h⟩
  | receive k =>
    have hmem := Observers.mem_receive hn ho k
    by_cases hk : o.id = k
    · subst hk
      rw [if_pos rfl] at hmem
      refine ⟨o.dropOldest, hmem, ⟨rfl, rfl, hg⟩, fun read => ?_⟩
      have hfst := os.fst_receive o.id
      rw [hn.unread_eq ho] at hfst
      rw [Operation.reads, if_pos rfl, hfst, ← o.inbox_next, Inbox.after, if_pos rfl]
      rfl
    · rw [if_neg hk] at hmem
      refine ⟨o, hmem, hstays, fun read => ?_⟩
      have hne : Operation.receive k ≠ .receive o.id := fun h => hk (Operation.receive.inj h).symm
      rw [Operation.reads, if_neg (Ne.symm hk), List.append_nil, Inbox.after, if_neg hne]
      rfl
  | notify c =>
    refine ⟨o.offer c, Observers.mem_notify ho hg c, ⟨Observers.id_offer o c, ?_, ?_⟩,
      fun read => ?_⟩
    · unfold Observer.offer
      split <;> rfl
    · rw [Observers.gone_offer, hg]
    · have hreads : Operation.reads o.id (.step, .stepped (.executed c)) = [] := rfl
      rw [hreads, List.append_nil]
      exact o.inbox_offer read c
  | keep hob hr =>
    refine ⟨o, ho, hstays, o.inbox_kept hr fun k hk => ?_⟩
    rw [hk] at hob
    cases hob

/-! ## A history -/

theorem Operation.numbered_apply {m : Machine} (hn : m.observers.Numbered) (u : Supply)
    (op : Operation) : (op.apply m u).machine.observers.Numbered :=
  (audienceChange m u op).numbered hn

theorem Operation.numbered_run {m : Machine} (hn : m.observers.Numbered) (u : Supply)
    (ops : List Operation) : (run m u ops).machine.observers.Numbered := by
  induction ops generalizing m u with
  | nil => exact hn
  | cons op ops ih => exact ih (numbered_apply hn u op) _

theorem Reachable.numbered {m : Machine} (h : Reachable m) : m.observers.Numbered := by
  induction h with
  | new wrap => exact Observers.numbered_empty
  | apply _ u op ih => exact Operation.numbered_apply ih u op

/-- **Who is there**: those who came and did not leave, in the order in which they came. -/
theorem Operation.live_run (m : Machine) (u : Supply) (ops : List Operation) :
    ((run m u ops).machine.observers.live, (run m u ops).machine.observers.joined) =
      ops.foldl rosterAfter (m.observers.live, m.observers.joined) := by
  induction ops generalizing m u with
  | nil => rfl
  | cons op ops ih =>
    rw [List.foldl_cons, ← (audienceChange m u op).roster]
    exact ih _ _

/-- **What an observer gets** is what an ideal inbox gets: what the others do has no part in it. -/
theorem Operation.inbox_run {m : Machine} (hn : m.observers.Numbered) {o : Observer}
    (ho : o ∈ m.observers.present) (hg : o.gone = false) (u : Supply) {ops : List Operation}
    (hops : .unsubscribe o.id ∉ ops) :
    ∃ o' ∈ (run m u ops).machine.observers.present, o.Stays o' ∧
      ∀ read, (journal m u ops).foldl (Inbox.after o.id o.capacity) (o.inbox read) =
        o'.inbox (read ++ received o.id (journal m u ops)) := by
  induction ops generalizing m u o with
  | nil => exact ⟨o, ho, ⟨rfl, rfl, hg⟩, fun read => by rw [received]; simp [journal]⟩
  | cons op ops ih =>
    have hop : op ≠ .unsubscribe o.id := fun h => hops (h ▸ List.mem_cons_self)
    -- The observer keeps its number and its capacity, so the rest fills the inbox of the same one.
    obtain ⟨o₁, ho₁, hs₁, hi₁⟩ := (audienceChange m u op).inbox hn ho hg hop
    have hops₁ : .unsubscribe o₁.id ∉ ops := fun h => hops (.tail _ (hs₁.id ▸ h))
    obtain ⟨o₂, ho₂, hs₂, hi₂⟩ :=
      ih (numbered_apply hn u op) ho₁ hs₁.gone (op.apply m u).supply hops₁
    rw [hs₁.id, hs₁.capacity] at hi₂
    refine ⟨o₂, ho₂, ⟨hs₂.id.trans hs₁.id, hs₂.capacity.trans hs₁.capacity, hs₂.gone⟩,
      fun read => ?_⟩
    rw [journal_cons, List.foldl_cons, hi₁, hi₂, received, received, List.flatMap_cons,
      List.append_assoc]

/-- An observer that comes gets what an ideal inbox gets that starts empty. -/
theorem Operation.inbox_newcomer {m : Machine} (hn : m.observers.Numbered) (u : Supply)
    (capacity : Nat) {ops : List Operation} (hops : .unsubscribe m.observers.joined ∉ ops) :
    (journal (m.subscribe capacity).2 u ops).foldl (Inbox.after m.observers.joined capacity)
        .empty =
      ⟨received m.observers.joined (journal (m.subscribe capacity).2 u ops),
        ((run (m.subscribe capacity).2 u ops).machine.observers.unread
          m.observers.joined).toList⟩ := by
  have hn' : (m.subscribe capacity).2.observers.Numbered := hn.join capacity
  have hmem : (⟨m.observers.joined, capacity, #[], false⟩ : Observer) ∈
      (m.subscribe capacity).2.observers.present :=
    List.mem_append_right _ (List.mem_singleton.2 rfl)
  obtain ⟨o, ho, hs, hi⟩ := inbox_run hn' hmem rfl u hops
  have hunread := (numbered_run hn' u ops).unread_eq ho
  rw [hs.id] at hunread
  rw [hunread]
  exact hi []

/-- What an observer reads while no instruction is completed it held before. -/
theorem Operation.received_of_silent (m : Machine) (u : Supply) {ops : List Operation}
    (h : completed (journal m u ops) = []) (id : Nat) :
    received id (journal m u ops) ++ ((run m u ops).machine.observers.unread id).toList =
      (m.observers.unread id).toList := by
  induction ops generalizing m u with
  | nil => rfl
  | cons op ops ih =>
    rw [journal_cons, completed, List.flatMap_cons, List.append_eq_nil_iff] at h
    obtain ⟨hop, hrest⟩ := h
    have hread := (audienceChange m u op).unread hop id
    have ih := ih (op.apply m u).machine (op.apply m u).supply hrest
    rw [← hread, ← ih, ← List.append_assoc]
    rfl

theorem Operation.completed_of_noStep (m : Machine) (u : Supply) {ops : List Operation}
    (h : .step ∉ ops) : completed (journal m u ops) = [] := by
  induction ops generalizing m u with
  | nil => rfl
  | cons op ops ih =>
    rw [List.mem_cons, not_or] at h
    obtain ⟨hop, hrest⟩ := h
    rw [journal_cons, completed, List.flatMap_cons,
      Reply.cycles_eq_nil (reply_ne_stepped m u (Ne.symm hop))]
    exact ih _ _ hrest

/-- The observers have no part in what a step does, whatever it does to them. -/
theorem Machine.step_withObservers (m : Machine) (u : Supply) (os : Observers) :
    After.Alike Eq (fun n n' => ∃ os', n' = { n with observers := os' }) (m.step u)
      (({ m with observers := os } : Machine).step u) :=
  step_alike ⟨os, rfl⟩ rfl rfl rfl (fun _ => rfl) (fun _ => rfl) fun i _ _ =>
    ⟨os.notify ⟨i.encode, m.state.pc⟩, rfl⟩

theorem Machine.observers_of_executed {m : Machine} {u : Supply} {c : Cycle}
    (h : (m.step u).reply = .executed c) :
    (m.step u).machine.observers = m.observers.notify c := by
  have ho := m.step_outcome u
  generalize m.step u = a at ho h
  cases ho with
  | executed => cases h; rfl
  | @refused i r => cases r <;> cases h
  | _ => cases h

/-- **Observers are lossy queues.** A step that carries an instruction out offers its cycle to
everyone who has not left, who takes it in if there is room, and takes those who left off the list;
nothing else brings anybody a cycle. So the list holds those who came and did not leave, in the
order in which they came, and each of them sees what an ideal inbox would see: what it has read and
what it holds is a part of what was completed since it came, in order and each cycle at most once,
and if it never reads it holds the first cycles, as many as it has room for. No observer has a part
in what a step does. -/
theorem observers_are_lossy_queues {m : Machine} (h : Reachable m) (u : Supply) :
    (∀ c, (m.step u).reply = .executed c →
      c = ⟨m.state.word, m.state.pc⟩ ∧
      (m.step u).machine.observers.ids = m.observers.live ∧
      ∀ o ∈ m.observers.present, o.gone = false →
        { o with
          unread := if o.unread.size < o.capacity then o.unread.push c else o.unread } ∈
            (m.step u).machine.observers.present) ∧
    (∀ op id, (op = .step → ∀ c, (m.step u).reply ≠ .executed c) →
      Operation.reads id (op, (op.apply m u).reply) ++
          ((op.apply m u).machine.observers.unread id).toList =
        (m.observers.unread id).toList) ∧
    (∀ ops : List Operation,
      ((Operation.run m u ops).machine.observers.live,
          (Operation.run m u ops).machine.observers.joined) =
        ops.foldl Operation.rosterAfter (m.observers.live, m.observers.joined)) ∧
    (∀ capacity ops, .unsubscribe (m.subscribe capacity).1 ∉ ops →
      let id := (m.subscribe capacity).1
      let journal := Operation.journal (m.subscribe capacity).2 u ops
      let held :=
        ((Operation.run (m.subscribe capacity).2 u ops).machine.observers.unread id).toList
      journal.foldl (Inbox.after id capacity) .empty = ⟨Operation.received id journal, held⟩ ∧
      (Operation.received id journal ++ held).Sublist (Operation.completed journal) ∧
      held.length ≤ capacity ∧
      (.receive id ∉ ops → held = (Operation.completed journal).take
        (min capacity (Operation.completed journal).length))) ∧
    ∀ os, ∃ os', ({ m with observers := os } : Machine).step u =
      ⟨(m.step u).reply, { (m.step u).machine with observers := os' }, (m.step u).supply⟩ := by
  refine ⟨fun c hc => ⟨Machine.cycle_of_executed hc, ?_, fun o ho hg => ?_⟩, fun op id hop => ?_,
    Operation.live_run m u, fun capacity ops hops => ?_, fun os => ?_⟩
  · rw [Machine.observers_of_executed hc, Observers.ids_notify]
  · rw [Machine.observers_of_executed hc]
    have hmem := Observers.mem_notify ho hg c
    unfold Observer.offer at hmem
    split at hmem
    · next hlt => rwa [if_pos hlt]
    · next hlt => rwa [if_neg hlt]
  · refine (Operation.audienceChange m u op).unread ?_ id
    by_cases hs : op = .step
    · subst hs
      have hne := hop rfl
      simp only [Operation.apply]
      cases hr : (m.step u).reply with
      | executed c => exact absurd hr (hne c)
      | _ => rfl
    · exact Reply.cycles_eq_nil (Operation.reply_ne_stepped m u hs)
  · intro id journal held
    have hinbox : journal.foldl (Inbox.after id capacity) .empty =
        ⟨Operation.received id journal, held⟩ :=
      Operation.inbox_newcomer h.numbered u capacity hops
    have hall := Inbox.all_foldl_sublist id capacity .empty journal
    have hlen := Inbox.length_held_foldl (b := .empty) (Nat.zero_le capacity) id journal
    rw [hinbox] at hall hlen
    refine ⟨hinbox, hall, hlen, fun hread => ?_⟩
    have hnone : ∀ entry ∈ journal, entry.1 ≠ .receive id := fun entry he heq =>
      hread (heq ▸ (List.of_mem_zip he).1)
    have hheld := Inbox.held_foldl (b := .empty) (Nat.zero_le capacity) hnone
    rw [hinbox] at hheld
    rw [← List.take_take, List.take_length]
    exact hheld
  · have ha := m.step_withObservers u os
    obtain ⟨os', hm⟩ := ha.machine
    refine ⟨os', ?_⟩
    rw [ha.reply, ← hm, ← ha.supply]

/-- A new machine with a program that sets four registers. -/
def Machine.settingFour : Machine :=
  (Operation.run (.new .flat) (.ofSeed 1)
    [.load [0x60, 0x01, 0x61, 0x02, 0x62, 0x03, 0x63, 0x04]]).machine

/-- An observer with room for two cycles loses the third, reads the first and gets the fourth;
another one comes and leaves meanwhile. -/
theorem observer_loses_third_cycle :
    let ops : List Operation :=
      [.subscribe 1, .step, .step, .step, .receive 0, .unsubscribe 1, .step]
    Reachable .settingFour ∧ .unsubscribe (Machine.settingFour.subscribe 2).1 ∉ ops ∧
      Operation.received 0
        (Operation.journal (Machine.settingFour.subscribe 2).2 (.ofSeed 1) ops) =
          [⟨0x6001, 0x200⟩] ∧
      ((Operation.run (Machine.settingFour.subscribe 2).2 (.ofSeed 1)
        ops).machine.observers.unread 0).toList = [⟨0x6102, 0x202⟩, ⟨0x6304, 0x206⟩] := by
  intro ops
  have hm : Reachable .settingFour := (Reachable.new .flat).run _ _
  have hid : (Machine.settingFour.subscribe 2).1 = 0 := by decide +kernel
  have hstays : .unsubscribe (Machine.settingFour.subscribe 2).1 ∉ ops := by
    rw [hid]
    decide
  obtain ⟨-, -, -, hqueue, -⟩ := observers_are_lossy_queues hm (.ofSeed 1)
  obtain ⟨hinbox, -⟩ := hqueue 2 ops hstays
  rw [hid] at hinbox
  have hideal : (Operation.journal (Machine.settingFour.subscribe 2).2 (.ofSeed 1) ops).foldl
      (Inbox.after 0 2) .empty =
        ⟨[⟨0x6001, 0x200⟩], [⟨0x6102, 0x202⟩, ⟨0x6304, 0x206⟩]⟩ := by
    decide +kernel
  obtain ⟨hread, hheld⟩ := Inbox.mk.inj (hinbox.symm.trans hideal)
  exact ⟨hm, hstays, hread, hheld⟩

end Chip8VM
