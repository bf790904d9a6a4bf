import Chip8VM.Machine.Operation
import Chip8VM.Proofs.Instruction.Effect

/-!
# What a step does

`Outcome m u a` lists the ways in which a step of `m` can go, each with what makes it go that way
and all that it leaves behind. `step_outcome` says that a step always goes one of these ways, so
that a property of steps is proved by cases on it; `step_of_at` computes the step at a known
instruction.
-/

set_option autoImplicit false

namespace Chip8VM

/-! ## The word at the counter -/

namespace State

/-- The word at the counter, its bytes past the end of memory counting as zeros. -/
def word (s : State) : Word :=
  .ofBytes ((s.memory.bytes[s.pc.toNat]?).getD 0) ((s.memory.bytes[s.pc.toNat + 1]?).getD 0)

/-- The counter is at an instruction: both bytes of its word are in memory. -/
def At (s : State) (i : Instruction) : Prop := s.pc.toNat < 0xFFF ∧ s.word = i.encode

theorem fetch_eq (s : State) :
    s.fetch = if s.pc.toNat < 0xFFF then .ok s.word
      else .error (.outOfRange (max s.pc.toNat 4096)) := by
  unfold fetch
  rw [Memory.read_eq]
  by_cases h : s.pc.toNat < 0xFFF
  · rw [if_neg (by omega), if_pos h]
    simp only [Memory.peek, bind, Except.bind, pure, Except.pure, Vector.getElem_ofFn, word,
      Nat.add_zero]
  · rw [if_pos (by omega), if_neg h]
    rfl

theorem At.fetch {s : State} {i : Instruction} (h : s.At i) : s.fetch = .ok i.encode := by
  rw [fetch_eq, if_pos h.1, h.2]

end State

/-- What a step reports of an instruction that was refused. -/
def Refusal.step : Refusal → Step
  | .awaitingKey => .awaitingKey
  | .fault f => .failed f
  | .trap t => .trapped t

namespace Machine

variable {m : Machine} {u : Supply}

/-- What a step leaves behind that carried the instruction at the counter out. -/
def executed (m : Machine) (u : Supply) (i : Instruction) : After Step :=
  ⟨.executed ⟨i.encode, m.state.pc⟩,
    m.commit (i.result m.wrap u.peek m.state) ⟨i.encode, m.state.pc⟩,
    if i.takesRandom then u.advance else u⟩

/-! ## Computing a step -/

theorem step_of_paused (h : m.paused = true) : m.step u = ⟨.paused, m, u⟩ := by
  simp [step, h]

theorem step_of_offMemory (hp : m.paused = false) (h : 0xFFF ≤ m.state.pc.toNat) :
    m.step u = ⟨.failed (.outOfRange (max m.state.pc.toNat 4096)), m, u⟩ := by
  simp [step, hp, State.fetch_eq, show ¬ m.state.pc.toNat < 0xFFF by omega]

theorem step_of_unknown (hp : m.paused = false) (hpc : m.state.pc.toNat < 0xFFF)
    (h : ∀ i : Instruction, m.state.word ≠ i.encode) :
    m.step u = ⟨.failed (.unknownInstruction m.state.word m.state.pc), m, u⟩ := by
  have hd : Instruction.decode? m.state.word = none := by
    cases hd : Instruction.decode? m.state.word with
    | none => rfl
    | some i => exact absurd (Instruction.encode_of_decode? hd).symm (h i)
  simp [step, hp, State.fetch_eq, hpc, perform, hd]

theorem step_of_at {i : Instruction} (hp : m.paused = false) (h : m.state.At i) :
    m.step u =
      match i.obstacle m.state with
      | some r => ⟨r.step, m, u⟩
      | none =>
        if i.target m.state < 65536 then m.executed u i
        else ⟨.trapped (.tooLarge (i.target m.state)), m, u⟩ := by
  simp only [step, hp, h.fetch, perform, Instruction.decode?_encode, Instruction.execute_eq,
    Bool.false_eq_true, if_false]
  cases i.obstacle m.state with
  | some r => cases r <;> rfl
  | none =>
    by_cases ht : i.target m.state < 65536
    · simp only [State.goto_eq, ht, if_true]
      rfl
    · simp only [State.goto_eq, ht, if_false]

/-! ## The ways a step can go -/

/-- The ways in which a step can go, with all that it leaves behind. -/
inductive Outcome (m : Machine) (u : Supply) : After Step → Prop
  | paused : m.paused = true → Outcome m u ⟨.paused, m, u⟩
  | offMemory : m.paused = false → 0xFFF ≤ m.state.pc.toNat →
      Outcome m u ⟨.failed (.outOfRange (max m.state.pc.toNat 4096)), m, u⟩
  | unknown : m.paused = false → m.state.pc.toNat < 0xFFF →
      (∀ i : Instruction, m.state.word ≠ i.encode) →
      Outcome m u ⟨.failed (.unknownInstruction m.state.word m.state.pc), m, u⟩
  | refused {i : Instruction} {r : Refusal} : m.paused = false → m.state.At i →
      i.obstacle m.state = some r → Outcome m u ⟨r.step, m, u⟩
  | overrun {i : Instruction} : m.paused = false → m.state.At i → i.obstacle m.state = none →
      65536 ≤ i.target m.state → Outcome m u ⟨.trapped (.tooLarge (i.target m.state)), m, u⟩
  | executed {i : Instruction} : m.paused = false → m.state.At i → i.obstacle m.state = none →
      i.target m.state < 65536 → Outcome m u (m.executed u i)

/-- **A step goes one of the ways listed.** -/
theorem step_outcome (m : Machine) (u : Supply) : Outcome m u (m.step u) := by
  cases hp : m.paused with
  | true => rw [step_of_paused hp]; exact .paused hp
  | false =>
    by_cases hpc : m.state.pc.toNat < 0xFFF
    · by_cases hi : ∃ i : Instruction, m.state.word = i.encode
      · obtain ⟨i, hi⟩ := hi
        have hat : m.state.At i := ⟨hpc, hi⟩
        rw [step_of_at hp hat]
        cases ho : i.obstacle m.state with
        | some r => exact .refused hp hat ho
        | none =>
          by_cases ht : i.target m.state < 65536
          · simp only [ht, if_true]
            exact .executed hp hat ho ht
          · simp only [ht, if_false]
            exact .overrun hp hat ho (Nat.le_of_not_lt ht)
      · have hw : ∀ i : Instruction, m.state.word ≠ i.encode := fun i h => hi ⟨i, h⟩
        rw [step_of_unknown hp hpc hw]
        exact .unknown hp hpc hw
    · have hpc : 0xFFF ≤ m.state.pc.toNat := Nat.le_of_not_lt hpc
      rw [step_of_offMemory hp hpc]
      exact .offMemory hp hpc

theorem step_executes_iff {i : Instruction} (hp : m.paused = false) (h : m.state.At i) :
    (∃ c, (m.step u).reply = .executed c) ↔
      i.obstacle m.state = none ∧ i.target m.state < 65536 := by
  rw [step_of_at hp h]
  cases i.obstacle m.state with
  | some r => cases r <;> simp [Refusal.step]
  | none =>
    by_cases ht : i.target m.state < 65536
    · simp [ht, executed]
    · simp [ht]

/-- What a step that executed an instruction leaves behind. -/
theorem step_of_executed {c : Cycle} (h : (m.step u).reply = .executed c) :
    ∃ i : Instruction, m.state.At i ∧ c = ⟨i.encode, m.state.pc⟩ ∧ i.obstacle m.state = none ∧
      i.target m.state < 65536 ∧ (m.step u).machine.state = i.result m.wrap u.peek m.state := by
  have ho := m.step_outcome u
  generalize m.step u = a at ho h ⊢
  cases ho with
  | @executed i _ hat hnone hlt => exact ⟨i, hat, (Step.executed.inj h).symm, hnone, hlt, rfl⟩
  | @refused i r => cases r <;> cases h
  | _ => cases h

/-- What a step reports of an instruction that it carried out. -/
theorem cycle_of_executed {c : Cycle} (h : (m.step u).reply = .executed c) :
    c = ⟨m.state.word, m.state.pc⟩ := by
  obtain ⟨i, hat, rfl, -⟩ := step_of_executed h
  rw [hat.2]

theorem paused_step (m : Machine) (u : Supply) : (m.step u).machine.paused = m.paused := by
  have ho := m.step_outcome u
  generalize m.step u = a at ho
  cases ho <;> rfl

/-- A step that carried no instruction out left everything as it was. -/
theorem step_unchanged (h : ∀ c, (m.step u).reply ≠ .executed c) :
    (m.step u).machine = m ∧ (m.step u).supply = u := by
  have ho := step_outcome m u
  generalize m.step u = a at ho h ⊢
  cases ho with
  | executed => exact absurd rfl (h _)
  | _ => exact ⟨rfl, rfl⟩

end Machine

end Chip8VM
