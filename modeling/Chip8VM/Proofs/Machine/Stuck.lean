import Chip8VM.Proofs.Instruction.Pattern
import Chip8VM.Proofs.Machine.Bounds

/-!
# When a program is stuck

`Stuck s f` says of a state, without carrying anything out, that its program is stuck with the
fault `f`. A step of a machine that is not paused reports a fault exactly when its program is stuck
with it, and a step that does not carry an instruction out leaves everything as it was.
-/

set_option autoImplicit false

namespace Chip8VM

/-- The program of a state is stuck with a fault: memory ends before the word at the counter does,
the word matches the pattern of no instruction, a return finds no address and a call no room on the
call stack, or memory ends before the bytes at `I` do that an instruction reads or writes. -/
inductive Stuck (s : State) : Fault → Prop
  | offMemory : 0xFFF ≤ s.pc.toNat → Stuck s (.outOfRange (max s.pc.toNat 0x1000))
  | unknown : s.pc.toNat < 0xFFF → (∀ i : Instruction, ¬ s.word.Matches i.pattern) →
      Stuck s (.unknownInstruction s.word s.pc)
  | ret : s.At .ret → s.calls.depth = 0 → Stuck s (.stackUnderflow s.pc)
  | call {target : Fin 4096} : s.At (.call target) → s.calls.depth = 16 →
      Stuck s (.stackOverflow s.pc)
  | draw {x y : Register} {rows : Fin 16} : s.At (.draw x y rows) →
      s.index.toNat + rows.val > 4096 → Stuck s (.outOfRange (max s.index.toNat 0x1000))
  | decimal {x : Register} : s.At (.decimal x) → s.index.toNat + 3 > 4096 →
      Stuck s (.outOfRange (max s.index.toNat 0x1000))
  | store {x : Register} : s.At (.store x) → s.index.toNat + x.val + 1 > 4096 →
      Stuck s (.outOfRange (max s.index.toNat 0x1000))
  | load {x : Register} : s.At (.load x) → s.index.toNat + x.val + 1 > 4096 →
      Stuck s (.outOfRange (max s.index.toNat 0x1000))

namespace Instruction

variable {s : State} {i : Instruction} {f : Fault}

theorem rangeObstacle_eq_some {len : Nat} (h : s.index.toNat + len > 4096) :
    rangeObstacle s len = some (.fault (.outOfRange (max s.index.toNat 0x1000))) := if_pos h

theorem of_rangeObstacle {len : Nat} (h : rangeObstacle s len = some (.fault f)) :
    s.index.toNat + len > 4096 ∧ f = .outOfRange (max s.index.toNat 0x1000) := by
  unfold rangeObstacle at h
  split at h
  · next hlen =>
    cases h
    exact ⟨hlen, rfl⟩
  · cases h

/-- A fault that refuses the instruction at the counter is one that its program is stuck with. -/
theorem stuck_of_obstacle (hat : s.At i) (h : i.obstacle s = some (.fault f)) : Stuck s f := by
  cases i with
  | ret =>
    simp only [obstacle] at h
    split at h
    · next h0 =>
      cases h
      exact .ret hat h0
    · split at h <;> cases h
  | call target =>
    simp only [obstacle] at h
    split at h
    · next h16 =>
      cases h
      exact .call hat h16
    · split at h <;> cases h
  | awaitKey x => simp only [obstacle] at h; split at h <;> cases h
  | draw x y rows =>
    obtain ⟨hlen, rfl⟩ := of_rangeObstacle h
    exact .draw hat hlen
  | decimal x =>
    obtain ⟨hlen, rfl⟩ := of_rangeObstacle h
    exact .decimal hat hlen
  | store x =>
    obtain ⟨hlen, rfl⟩ := of_rangeObstacle h
    exact .store hat hlen
  | load x =>
    obtain ⟨hlen, rfl⟩ := of_rangeObstacle h
    exact .load hat hlen
  | _ => cases h

end Instruction

namespace Machine

variable {m : Machine} {u : Supply}

theorem stuck_of_failed {f : Fault} (h : (m.step u).reply = .failed f) :
    m.paused = false ∧ Stuck m.state f := by
  have ho := m.step_outcome u
  generalize m.step u = a at ho h
  cases ho with
  | offMemory hp hpc =>
    cases h
    exact ⟨hp, .offMemory hpc⟩
  | unknown hp hpc hw =>
    cases h
    refine ⟨hp, .unknown hpc fun i hi => ?_⟩
    obtain ⟨j, hj⟩ := Instruction.exists_encode_iff_matches.2 ⟨i, hi⟩
    exact hw j hj
  | @refused i r hp hat ho =>
    cases r with
    | fault g =>
      cases h
      exact ⟨hp, Instruction.stuck_of_obstacle hat ho⟩
    | awaitingKey => cases h
    | trap t => cases h
  | _ => cases h

theorem failed_of_obstacle {i : Instruction} {f : Fault} (hp : m.paused = false)
    (hat : m.state.At i) (h : i.obstacle m.state = some (.fault f)) :
    (m.step u).reply = .failed f := by
  rw [step_of_at hp hat, h]
  rfl

theorem failed_of_stuck {f : Fault} (hp : m.paused = false) (h : Stuck m.state f) :
    (m.step u).reply = .failed f := by
  cases h with
  | offMemory hpc => rw [step_of_offMemory hp hpc]
  | unknown hpc hw =>
    rw [step_of_unknown hp hpc fun i hi => ?_]
    obtain ⟨j, hj⟩ := Instruction.exists_encode_iff_matches.1 ⟨i, hi⟩
    exact hw j hj
  | ret hat h0 => exact failed_of_obstacle hp hat (if_pos h0)
  | call hat h16 => exact failed_of_obstacle hp hat (if_pos h16)
  | draw hat hlen => exact failed_of_obstacle hp hat (Instruction.rangeObstacle_eq_some hlen)
  | decimal hat hlen => exact failed_of_obstacle hp hat (Instruction.rangeObstacle_eq_some hlen)
  | store hat hlen => exact failed_of_obstacle hp hat (Instruction.rangeObstacle_eq_some hlen)
  | load hat hlen => exact failed_of_obstacle hp hat (Instruction.rangeObstacle_eq_some hlen)

end Machine

/-- A program is stuck with one fault only. -/
theorem Stuck.unique {s : State} {f g : Fault} (hf : Stuck s f) (hg : Stuck s g) : f = g := by
  have hfail {h : Fault} (hs : Stuck s h) :
      ((⟨s, false, 0, .flat, .empty⟩ : Machine).step (.ofSeed 0)).reply = .failed h :=
    Machine.failed_of_stuck rfl hs
  exact Step.failed.inj ((hfail hf).symm.trans (hfail hg))

/-- **A step fails exactly when the program is stuck**, and then with the fault that it is stuck
with. Whatever else a step that carried no instruction out did, the machine, its observers and the
random bytes are as they were. -/
theorem step_fails_iff_stuck {m : Machine} (h : Reachable m) (u : Supply) :
    (∀ f, (m.step u).reply = .failed f ↔ m.paused = false ∧ Stuck m.state f) ∧
      (∀ t, (m.step u).reply ≠ .trapped t) ∧
      ((∀ c, (m.step u).reply ≠ .executed c) →
        (m.step u).machine = m ∧ (m.step u).supply = u) :=
  ⟨fun _ => ⟨Machine.stuck_of_failed, fun hf => Machine.failed_of_stuck hf.1 hf.2⟩,
    h.step_ne_trapped u, Machine.step_unchanged⟩

/-- A machine with a program that calls itself, after sixteen calls. -/
def Machine.callingItself : Machine :=
  (Operation.run (.new .flat) (.ofSeed 1)
    (.load [0x22, 0x00] :: List.replicate 16 .step)).machine

theorem step_fails_behind_sixteen_calls :
    Reachable .callingItself ∧ Machine.callingItself.paused = false ∧
      (Machine.callingItself.step (.ofSeed 1)).reply = .failed (.stackOverflow 0x200) := by
  have hm : Reachable .callingItself := (Reachable.new .flat).run _ _
  have hs : Machine.callingItself.paused = false ∧ Machine.callingItself.state.pc = 0x200 ∧
      Machine.callingItself.state.word = Instruction.encode (.call 0x200) ∧
      Machine.callingItself.state.calls.depth = 16 := by
    decide +kernel
  obtain ⟨hp, hpc, hw, hd⟩ := hs
  have hat : Machine.callingItself.state.At (.call 0x200) := ⟨by rw [hpc]; decide, hw⟩
  have hstuck := Stuck.call hat hd
  rw [hpc] at hstuck
  exact ⟨hm, hp, ((step_fails_iff_stuck hm (.ofSeed 1)).1 _).2 ⟨hp, hstuck⟩⟩

end Chip8VM
