import Mathlib.Data.List.DropRight
import Mathlib.Data.List.Induction
import Chip8VM.Proofs.Machine.Change

/-!
# Moments

A journal holds what was done with a machine and what it answered. `Operation.moments` keeps beside
each entry the machine that the operation found, so that one can tell what an instruction had before
it. `Moment.sinceReset` is the part of a history behind its last reset. Both grow at the end of a
history (`moments_concat`, `sinceReset_concat`), where an invariant of the whole of it is proved by
induction.
-/

set_option autoImplicit false

namespace Chip8VM

/-- An operation in the course of a history. -/
structure Moment where
  /-- The machine that the operation found. -/
  machine : Machine
  operation : Operation
  reply : Reply

namespace Operation

/-- The moment at which an operation is carried out. -/
def moment (m : Machine) (u : Supply) (op : Operation) : Moment := ⟨m, op, (op.apply m u).reply⟩

theorem operation_moment (m : Machine) (u : Supply) (op : Operation) :
    (op.moment m u).operation = op := rfl

/-- The moments of a history. -/
def moments (m : Machine) (u : Supply) : List Operation → List Moment
  | [] => []
  | op :: rest => op.moment m u :: moments (op.apply m u).machine (op.apply m u).supply rest

theorem moments_append (m : Machine) (u : Supply) (ops₁ ops₂ : List Operation) :
    moments m u (ops₁ ++ ops₂) =
      moments m u ops₁ ++ moments (run m u ops₁).machine (run m u ops₁).supply ops₂ := by
  induction ops₁ generalizing m u with
  | nil => rfl
  | cons op ops ih => simp only [List.cons_append, moments, run, ih]

theorem moments_concat (m : Machine) (u : Supply) (ops : List Operation) (op : Operation) :
    moments m u (ops ++ [op]) =
      moments m u ops ++ [op.moment (run m u ops).machine (run m u ops).supply] :=
  moments_append m u ops [op]

/-- Each moment answers what its operation does to the machine that it found. -/
theorem eq_moment_of_mem {m : Machine} {u : Supply} {ops : List Operation} {t : Moment}
    (h : t ∈ moments m u ops) : ∃ u', t = t.operation.moment t.machine u' := by
  induction ops generalizing m u with
  | nil => cases h
  | cons op ops ih =>
    rw [moments] at h
    rcases List.mem_cons.1 h with rfl | h
    · exact ⟨u, rfl⟩
    · exact ih h

end Operation

/-- The moments behind the last reset. -/
def Moment.sinceReset (ts : List Moment) : List Moment := ts.rtakeWhile (·.operation ≠ .reset)

theorem Moment.sinceReset_concat (ts : List Moment) (t : Moment) :
    sinceReset (ts ++ [t]) = if t.operation = .reset then [] else sinceReset ts ++ [t] := by
  rw [sinceReset, List.rtakeWhile_concat]
  by_cases ht : t.operation = .reset <;> simp [ht, sinceReset]

end Chip8VM
