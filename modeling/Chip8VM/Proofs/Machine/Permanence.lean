import Chip8VM.Proofs.Machine.Audience
import Chip8VM.Proofs.Machine.Stuck

/-!
# Faults are permanent

Whether a program is stuck, and with which fault, is decided by its memory, the counter, `I` and the
call stack (`Stuck.of_same`). A step of a stuck program changes nothing, and of the other operations
only a reset and a load reach these places. So a program that is stuck stays stuck with the same
fault, whatever else is done with the machine (`Operation.sameProgram_run`).
-/

set_option autoImplicit false

namespace Chip8VM

/-- An operation puts another program into memory, or none. -/
def Operation.replacesProgram : Operation → Bool
  | .reset | .load _ | .loadFrom _ => true
  | _ => false

/-- The machines agree on the registers, the counter, the call stack, the screen and memory. -/
structure Machine.SameProgram (m m' : Machine) : Prop extends m.SameCore m' where
  memory : m'.state.memory = m.state.memory

theorem Machine.SameProgram.refl (m : Machine) : m.SameProgram m := ⟨.refl m, rfl⟩

theorem Machine.SameProgram.trans {m m' m'' : Machine} (h : m.SameProgram m')
    (h' : m'.SameProgram m'') : m.SameProgram m'' where
  v := h'.v.trans h.v
  index := h'.index.trans h.index
  pc := h'.pc.trans h.pc
  calls := h'.calls.trans h.calls
  frame := h'.frame.trans h.frame
  wrap := h'.wrap.trans h.wrap
  memory := h'.memory.trans h.memory

/-! ## What a fault depends on -/

theorem State.At.of_same {s s' : State} {i : Instruction} (h : s.At i) (hpc : s'.pc = s.pc)
    (hmemory : s'.memory = s.memory) : s'.At i := by
  unfold State.At State.word at *
  rwa [hpc, hmemory]

theorem Stuck.of_same {s s' : State} {f : Fault} (h : Stuck s f) (hpc : s'.pc = s.pc)
    (hindex : s'.index = s.index) (hcalls : s'.calls = s.calls)
    (hmemory : s'.memory = s.memory) : Stuck s' f := by
  have hword : s'.word = s.word := by unfold State.word; rw [hpc, hmemory]
  cases h with
  | offMemory h =>
    rw [← hpc] at h ⊢
    exact .offMemory h
  | unknown h hw =>
    rw [← hpc] at h ⊢
    rw [← hword] at hw ⊢
    exact .unknown h hw
  | ret hat h =>
    rw [← hpc]
    exact .ret (hat.of_same hpc hmemory) (hcalls ▸ h)
  | call hat h =>
    rw [← hpc]
    exact .call (hat.of_same hpc hmemory) (hcalls ▸ h)
  | draw hat h =>
    rw [← hindex] at h ⊢
    exact .draw (hat.of_same hpc hmemory) h
  | decimal hat h =>
    rw [← hindex] at h ⊢
    exact .decimal (hat.of_same hpc hmemory) h
  | store hat h =>
    rw [← hindex] at h ⊢
    exact .store (hat.of_same hpc hmemory) h
  | load hat h =>
    rw [← hindex] at h ⊢
    exact .load (hat.of_same hpc hmemory) h

theorem Machine.SameProgram.stuck {m m' : Machine} {f : Fault} (h : m.SameProgram m')
    (hf : Stuck m.state f) : Stuck m'.state f :=
  hf.of_same h.pc h.index h.calls h.memory

/-! ## One operation -/

theorem Machine.step_of_stuck {m : Machine} {f : Fault} (hf : Stuck m.state f) (u : Supply) :
    m.step u = ⟨if m.paused then .paused else .failed f, m, u⟩ := by
  cases hp : m.paused with
  | true => exact step_of_paused hp
  | false =>
    have hr := failed_of_stuck (u := u) hp hf
    -- A step that reports no cycle leaves everything as it was.
    have hu : ∀ c, (m.step u).reply ≠ .executed c := fun c hc => by rw [hr] at hc; cases hc
    obtain ⟨hm, hs⟩ := step_unchanged hu
    generalize m.step u = a at hr hm hs ⊢
    cases a
    cases hr
    cases hm
    cases hs
    rfl

namespace Operation

/-- Other operations than a step leave a program alone, unless they replace it. -/
theorem sameProgram_apply_of_ne (m : Machine) (u : Supply) {op : Operation} (hs : op ≠ .step)
    (hop : op.replacesProgram = false) : m.SameProgram (op.apply m u).machine := by
  have hr : op ≠ .reset := by
    rintro rfl
    cases hop
  refine ⟨sameCore_apply m u hs hr, ?_⟩
  have hc := change m u hs
  generalize (op.apply m u).machine = m' at hc ⊢
  cases hc with
  | reset | load | loadFrom => cases hop
  | _ => rfl

theorem sameProgram_apply {m : Machine} {f : Fault} (hf : Stuck m.state f) (u : Supply)
    {op : Operation} (hop : op.replacesProgram = false) :
    m.SameProgram (op.apply m u).machine := by
  by_cases hs : op = .step
  · subst hs
    simp only [apply, Machine.step_of_stuck hf]
    exact .refl m
  · exact sameProgram_apply_of_ne m u hs hop

theorem cycles_of_stuck {m : Machine} {f : Fault} (hf : Stuck m.state f) (u : Supply)
    (op : Operation) : (op.apply m u).reply.cycles = [] := by
  by_cases hs : op = .step
  · subst hs
    simp only [apply, Machine.step_of_stuck hf]
    cases m.paused <;> rfl
  · exact Reply.cycles_eq_nil (reply_ne_stepped m u hs)

/-! ## A history -/

variable {m : Machine} {f : Fault} (hf : Stuck m.state f)
include hf

/-- **A stuck program stays as it is** until another one takes its place. -/
theorem sameProgram_run (u : Supply) {ops : List Operation}
    (hops : ∀ op ∈ ops, op.replacesProgram = false) : m.SameProgram (run m u ops).machine := by
  induction ops generalizing m u with
  | nil => exact .refl m
  | cons op ops ih =>
    have hop := sameProgram_apply hf u (hops op List.mem_cons_self)
    exact hop.trans (ih (hop.stuck hf) _ fun op' hop' => hops op' (.tail _ hop'))

/-- A stuck program completes no instruction. -/
theorem completed_run (u : Supply) {ops : List Operation}
    (hops : ∀ op ∈ ops, op.replacesProgram = false) : completed (journal m u ops) = [] := by
  induction ops generalizing m u with
  | nil => rfl
  | cons op ops ih =>
    have hop := sameProgram_apply hf u (hops op List.mem_cons_self)
    rw [journal_cons, completed, List.flatMap_cons, cycles_of_stuck hf u op]
    exact ih (hop.stuck hf) _ fun op' hop' => hops op' (.tail _ hop')

/-- A step in the course of a history reports the fault, or that the machine is paused. -/
theorem reply_run (u : Supply) {pre rest : List Operation}
    (hpre : ∀ op ∈ pre, op.replacesProgram = false) :
    (run m u (pre ++ .step :: rest)).reply[pre.length]? = some (.stepped
      (if (run m u pre).machine.paused then .paused else .failed f)) := by
  have hn := (sameProgram_run hf u hpre).stuck hf
  rw [getElem?_reply_run]
  simp only [apply, Machine.step_of_stuck hn]

end Operation

/-- **A fault is permanent** until the program is replaced. Once a step has failed, whatever is done
with the machine but for a reset and a load, every step reports the same fault, or that the machine
is paused; no cycle comes to any observer; and the registers, the counter, the call stack, the
screen and memory stay as they are. -/
theorem fault_is_permanent {m : Machine} {u : Supply} {f : Fault}
    (h : (m.step u).reply = .failed f) (u' : Supply) {ops : List Operation}
    (hops : ∀ op ∈ ops, op.replacesProgram = false) :
    (∀ pre rest, ops = pre ++ .step :: rest →
      (Operation.run (m.step u).machine u' ops).reply[pre.length]? = some (.stepped
        (if (Operation.run (m.step u).machine u' pre).machine.paused then .paused
          else .failed f))) ∧
    (∀ id, Operation.received id (Operation.journal (m.step u).machine u' ops) ++
        ((Operation.run (m.step u).machine u' ops).machine.observers.unread id).toList =
      (m.observers.unread id).toList) ∧
    m.SameProgram (Operation.run (m.step u).machine u' ops).machine := by
  have hf := (Machine.stuck_of_failed h).2
  rw [Machine.step_of_stuck hf]
  refine ⟨?_, Operation.received_of_silent m u' (Operation.completed_run hf u' hops),
    Operation.sameProgram_run hf u' hops⟩
  rintro pre rest rfl
  exact Operation.reply_run hf u' fun op hop => hops op (List.mem_append_left _ hop)

/-- A machine whose program begins with a word that stands for no instruction. -/
def Machine.senseless : Machine :=
  (Operation.run (.new .flat) (.ofSeed 1) [.subscribe 3, .load [0xFF, 0xFF]]).machine

theorem fault_survives_key_and_pause :
    let ops : List Operation := [.press 0xF, .tick, .pause, .step, .resume, .takeFrame, .step]
    (Machine.senseless.step (.ofSeed 1)).reply = .failed (.unknownInstruction 0xFFFF 0x200) ∧
      (∀ op ∈ ops, op.replacesProgram = false) ∧
      (Operation.run (Machine.senseless.step (.ofSeed 1)).machine (.ofSeed 1) ops).reply[6]? =
        some (.stepped (.failed (.unknownInstruction 0xFFFF 0x200))) := by
  intro ops
  have hfail : (Machine.senseless.step (.ofSeed 1)).reply =
      .failed (.unknownInstruction 0xFFFF 0x200) := by
    decide +kernel
  have hops : ∀ op ∈ ops, op.replacesProgram = false := by decide
  obtain ⟨hstep, -, -⟩ := fault_is_permanent hfail (.ofSeed 1) hops
  have hlast := hstep [.press 0xF, .tick, .pause, .step, .resume, .takeFrame] [] rfl
  have hp : (Operation.run (Machine.senseless.step (.ofSeed 1)).machine (.ofSeed 1)
      [.press 0xF, .tick, .pause, .step, .resume, .takeFrame]).machine.paused = false := by
    decide +kernel
  rw [hp] at hlast
  exact ⟨hfail, hops, hlast⟩

end Chip8VM
