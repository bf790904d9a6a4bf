import Chip8VM.Machine.Operation

/-!
# An ideal inbox

What one observer should see, told without any list of observers: an `Inbox` takes in each cycle
that is completed while it has room, loses the cycle otherwise, and gives away the oldest one on
each read. Whatever is read and still held is then a part of what was completed, in order
(`Inbox.all_foldl_sublist`), and an inbox that nobody reads holds the first cycles and no others
(`Inbox.held_foldl`).
-/

set_option autoImplicit false

namespace Chip8VM

/-- The cycles that a reply reports: one if an instruction was completed, else none. -/
def Reply.cycles : Reply → List Cycle
  | .stepped (.executed c) => [c]
  | _ => []

namespace Operation

/-- A history of operations, each with its reply. -/
def journal (m : Machine) (u : Supply) (ops : List Operation) : List (Operation × Reply) :=
  ops.zip (run m u ops).reply

/-- The cycles that were completed in the course of a journal. -/
def completed (journal : List (Operation × Reply)) : List Cycle := journal.flatMap (·.2.cycles)

/-- The cycles that an entry of a journal let an observer read: one or none. -/
def reads (id : Nat) : Operation × Reply → List Cycle
  | (.receive k, .cycle c) => if k = id then c.toList else []
  | _ => []

/-- The cycles that an observer read in the course of a journal. -/
def received (id : Nat) (journal : List (Operation × Reply)) : List Cycle :=
  journal.flatMap (reads id)

theorem reads_of_ne {op : Operation} (h : ∀ k, op ≠ .receive k) (id : Nat) (r : Reply) :
    reads id (op, r) = [] := by
  cases op with
  | receive k => exact absurd rfl (h k)
  | _ => rfl

theorem journal_cons (m : Machine) (u : Supply) (op : Operation) (ops : List Operation) :
    journal m u (op :: ops) = (op, (op.apply m u).reply) ::
      journal (op.apply m u).machine (op.apply m u).supply ops := rfl

theorem journal_append (m : Machine) (u : Supply) (ops₁ ops₂ : List Operation) :
    journal m u (ops₁ ++ ops₂) =
      journal m u ops₁ ++ journal (run m u ops₁).machine (run m u ops₁).supply ops₂ := by
  induction ops₁ generalizing m u with
  | nil => rfl
  | cons op ops ih => simp only [List.cons_append, journal_cons, run, ih]

end Operation

/-- What an observer has read so far and what it holds unread, oldest first. -/
structure Inbox where
  read : List Cycle
  held : List Cycle
deriving DecidableEq, Repr

namespace Inbox

/-- An inbox that nothing has come to yet. -/
def empty : Inbox := ⟨[], []⟩

/-- All that came in. -/
def all (b : Inbox) : List Cycle := b.read ++ b.held

/-- Takes a cycle in if there is room for it. -/
def offer (capacity : Nat) (b : Inbox) (c : Cycle) : Inbox :=
  if b.held.length < capacity then ⟨b.read, b.held ++ [c]⟩ else b

/-- Reads the oldest cycle, if there is one. -/
def next (b : Inbox) : Inbox := ⟨b.read ++ b.held.take 1, b.held.drop 1⟩

/-- The inbox of an observer after an entry of a journal. -/
def after (id capacity : Nat) (b : Inbox) (entry : Operation × Reply) : Inbox :=
  entry.2.cycles.foldl (offer capacity) (if entry.1 = .receive id then b.next else b)

/-! ## One entry -/

theorem all_next (b : Inbox) : b.next.all = b.all := by
  rw [all, next, List.append_assoc, List.take_append_drop, all]

theorem all_offer_sublist (capacity : Nat) (b : Inbox) (c : Cycle) :
    (b.offer capacity c).all.Sublist (b.all ++ [c]) := by
  unfold offer
  split
  · simp [all]
  · exact List.sublist_append_left _ _

theorem all_offers_sublist (capacity : Nat) (b : Inbox) (cs : List Cycle) :
    (cs.foldl (offer capacity) b).all.Sublist (b.all ++ cs) := by
  induction cs generalizing b with
  | nil => simp
  | cons c cs ih =>
    have hc := (all_offer_sublist capacity b c).append_right cs
    rw [List.append_assoc] at hc
    exact (ih (b.offer capacity c)).trans hc

theorem all_after_sublist (id capacity : Nat) (b : Inbox) (entry : Operation × Reply) :
    (b.after id capacity entry).all.Sublist (b.all ++ entry.2.cycles) := by
  have h := all_offers_sublist capacity (if entry.1 = .receive id then b.next else b)
    entry.2.cycles
  rwa [apply_ite all, all_next, ite_self] at h

/-- What did not fit is not made up for by what follows. -/
theorem take_take_append (front rest : List Cycle) (n : Nat) :
    (front.take n ++ rest).take n = (front ++ rest).take n := by
  have hroom : n - min n front.length = n - front.length := by omega
  rw [List.take_append, List.take_append, List.take_take, Nat.min_self, List.length_take, hroom]

section

variable {capacity : Nat} {b : Inbox} (h : b.held.length ≤ capacity)
include h

theorem held_offer (c : Cycle) : (b.offer capacity c).held = (b.held ++ [c]).take capacity := by
  unfold offer
  split
  · next hlt =>
    rw [List.take_of_length_le]
    rw [List.length_append]
    exact hlt
  · next hlt =>
    have hfull : b.held.length = capacity := by omega
    rw [← hfull, List.take_left]

theorem held_offers (cs : List Cycle) :
    (cs.foldl (offer capacity) b).held = (b.held ++ cs).take capacity := by
  induction cs generalizing b with
  | nil => rw [List.append_nil, List.take_of_length_le h, List.foldl_nil]
  | cons c cs ih =>
    have hc := held_offer h c
    have hle : (b.offer capacity c).held.length ≤ capacity := by
      rw [hc]
      exact List.length_take_le _ _
    rw [List.foldl_cons, ih hle, hc, take_take_append, List.append_assoc, List.singleton_append]

theorem held_after (id : Nat) (entry : Operation × Reply) :
    (b.after id capacity entry).held =
      ((if entry.1 = .receive id then b.held.drop 1 else b.held) ++ entry.2.cycles).take
        capacity := by
  unfold after
  split
  · rw [held_offers]
    · rfl
    · exact Nat.le_trans (by simp [next]) h
  · exact held_offers h _

theorem length_held_after (id : Nat) (entry : Operation × Reply) :
    (b.after id capacity entry).held.length ≤ capacity := by
  rw [held_after h]
  exact List.length_take_le _ _

end

/-! ## A journal -/

/-- What came in is a part of what was completed, in order and each cycle at most once. -/
theorem all_foldl_sublist (id capacity : Nat) (b : Inbox) (journal : List (Operation × Reply)) :
    (journal.foldl (after id capacity) b).all.Sublist (b.all ++ Operation.completed journal) := by
  induction journal generalizing b with
  | nil => exact List.sublist_append_left _ _
  | cons entry journal ih =>
    have hentry := (all_after_sublist id capacity b entry).append_right
      (Operation.completed journal)
    rw [List.append_assoc] at hentry
    exact (ih (b.after id capacity entry)).trans hentry

section

variable {capacity : Nat} {b : Inbox} (h : b.held.length ≤ capacity)
include h

/-- An inbox never holds more than it has room for. -/
theorem length_held_foldl (id : Nat) (journal : List (Operation × Reply)) :
    (journal.foldl (after id capacity) b).held.length ≤ capacity := by
  induction journal generalizing b with
  | nil => exact h
  | cons entry journal ih => exact ih (length_held_after h id entry)

/-- An inbox that nobody reads holds the first cycles that came, as many as it has room for. -/
theorem held_foldl {id : Nat} {journal : List (Operation × Reply)}
    (hread : ∀ entry ∈ journal, entry.1 ≠ .receive id) :
    (journal.foldl (after id capacity) b).held =
      (b.held ++ Operation.completed journal).take capacity := by
  induction journal generalizing b with
  | nil =>
    rw [Operation.completed, List.flatMap_nil, List.append_nil, List.take_of_length_le h,
      List.foldl_nil]
  | cons entry journal ih =>
    have hentry := held_after h id entry
    rw [if_neg (hread entry List.mem_cons_self)] at hentry
    rw [List.foldl_cons, ih (length_held_after h id entry) fun e he => hread e (.tail _ he), hentry,
      take_take_append, List.append_assoc]
    rfl

end

end Inbox

end Chip8VM
