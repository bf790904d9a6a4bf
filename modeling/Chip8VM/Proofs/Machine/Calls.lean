import Mathlib.Data.List.DropRight
import Mathlib.Data.List.Induction
import Chip8VM.Proofs.Machine.Bounds
import Chip8VM.Proofs.Machine.DeadSlots

/-!
# The call stack is a list

`Machine.callers` is the list of addresses that the slots of a call stack stand for. An operation
changes that list as `Operation.callersAfter` says, which sees nothing of the slots: a call puts
its own address at the end, a return takes the last one away and goes behind it, and a reset
empties the list. So the depth counts the calls that have not returned (`depth_run`), and the
return of a call finds what the call left (`run_matched`).
-/

set_option autoImplicit false

namespace Chip8VM

/-! ## Slots as a list -/

namespace CallStack

theorem length_entries {s : CallStack} (h : s.depth ≤ 16) : s.entries.length = s.depth := by
  rw [entries, List.length_take, Vector.length_toList]
  omega

theorem entries_putTop {s : CallStack} (h : s.depth < 16) (address : Word) :
    (s.putTop address).entries = s.entries ++ [address] := entries_push (push_of_lt h address)

theorem entries_dropTop {s : CallStack} (h : s.depth ≠ 0) (h16 : s.depth ≤ 16) :
    s.entries = s.dropTop.entries ++ [s.top] := entries_pop (pop_of_pos h h16)

end CallStack

/-- The addresses of the calls that have not returned, oldest first. -/
def Machine.callers (m : Machine) : List Word := m.state.calls.entries

/-- The reply of a step that carried a call out, a word `2NNN`. -/
def Reply.isCall : Reply → Bool
  | .stepped (.executed c) => c.word.nibble 3 == 2
  | _ => false

/-- The reply of a step that carried a return out. -/
def Reply.isReturn : Reply → Bool
  | .stepped (.executed c) => c.word == 0x00EE
  | _ => false

theorem Reply.isCall_executed (c : Cycle) :
    isCall (.stepped (.executed c)) = (c.word.nibble 3 == 2) := rfl

theorem Reply.isReturn_executed (c : Cycle) :
    isReturn (.stepped (.executed c)) = (c.word == 0x00EE) := rfl

/-- What an operation with the given reply makes of a list of callers. -/
def Operation.callersAfter (callers : List Word) : Operation → Reply → List Word
  | .reset, _ => []
  | .step, .stepped (.executed c) =>
    if c.word.nibble 3 = 2 then callers ++ [c.pc]
    else if c.word = 0x00EE then callers.dropLast
    else callers
  | _, _ => callers

/-- The replies to a history that came after its last reset. -/
def Operation.sinceReset (ops : List Operation) (replies : List Reply) : List Reply :=
  ((ops.zip replies).rtakeWhile fun entry => entry.1 ≠ .reset).map (·.2)

/-- An operation is a return that leaves so many callers behind. -/
def Operation.ReturnsTo (depth : Nat) (m : Machine) (u : Supply) (op : Operation) : Prop :=
  (op.apply m u).reply.isReturn = true ∧ (op.apply m u).machine.state.calls.depth = depth

instance (depth : Nat) (m : Machine) (u : Supply) (op : Operation) :
    Decidable (op.ReturnsTo depth m u) :=
  inferInstanceAs (Decidable (_ ∧ _))

/-! ## One operation -/

namespace Instruction

theorem nibble_three_encode_eq_two {i : Instruction} (h : i.encode.nibble 3 = 2) :
    ∃ target, i = .call target := by
  have hd := i.decode?_encode
  simp only [decode?, h] at hd
  exact ⟨_, (Option.some.inj hd).symm⟩

theorem nibble_three_encode_call (target : Fin 4096) : (encode (.call target)).nibble 3 = 2 :=
  Word.nibble_three_ofAddress _ _

end Instruction

/-- The ways in which an operation can change the callers. -/
inductive CallChange (m : Machine) : Operation → After Reply → Prop
  | reset {a : After Reply} : a.machine.callers = [] → a.reply = .done → CallChange m .reset a
  | call {a : After Reply} {target : Fin 4096} :
      a.reply = .stepped (.executed ⟨Instruction.encode (.call target), m.state.pc⟩) →
      m.callers.length < 16 → a.machine.callers = m.callers ++ [m.state.pc] →
      CallChange m .step a
  | ret {a : After Reply} {rest : List Word} {top : Word} :
      a.reply = .stepped (.executed ⟨0x00EE, m.state.pc⟩) →
      m.callers = rest ++ [top] → a.machine.callers = rest →
      a.machine.state.pc.toNat = top.toNat + 2 → CallChange m .step a
  | keep {op : Operation} {a : After Reply} : op ≠ .reset → a.reply.isCall = false →
      a.reply.isReturn = false → a.machine.callers = m.callers → CallChange m op a

theorem Machine.callChange_executed {m : Machine} {i : Instruction} (hm : m.state.Bounded)
    (hat : m.state.At i) (ho : i.obstacle m.state = none) (u : Supply) :
    CallChange m .step ⟨.stepped (m.executed u i).reply, (m.executed u i).machine,
      (m.executed u i).supply⟩ := by
  have hcalls : (m.executed u i).machine.callers = (i.effect m.wrap u.peek m.state).calls.entries :=
    rfl
  rw [Instruction.effect_calls] at hcalls
  by_cases hc : ∃ target, i = .call target
  · obtain ⟨target, rfl⟩ := hc
    have hd := Instruction.depth_lt_of_call ho
    refine .call rfl ?_ (hcalls.trans (CallStack.entries_putTop hd _))
    rw [callers, CallStack.length_entries hm.depth]
    exact hd
  by_cases hr : i = .ret
  · subst hr
    have h0 : m.state.calls.depth ≠ 0 := fun h0 => by simp [Instruction.obstacle, h0] at ho
    refine .ret rfl (CallStack.entries_dropTop h0 hm.depth) hcalls ?_
    have htop := CallStack.top_le hm.slots
    show (UInt16.ofNat (m.state.calls.top.toNat + 2)).toNat = _
    rw [UInt16.toNat_ofNat']
    omega
  · refine .keep (by decide) ?_ ?_ ?_
    · exact beq_eq_false_iff_ne.2 fun h => hc (Instruction.nibble_three_encode_eq_two h)
    · exact beq_eq_false_iff_ne.2 fun h => hr (Instruction.eq_of_encode h rfl)
    · rw [hcalls]
      cases i with
      | ret => exact absurd rfl hr
      | call target => exact absurd ⟨target, rfl⟩ hc
      | _ => rfl

/-- **What one operation does to the callers.** -/
theorem Operation.callChange {m : Machine} (hm : m.state.Bounded) (u : Supply) (op : Operation) :
    CallChange m op (op.apply m u) := by
  by_cases hr : op = .reset
  · subst hr
    exact .reset rfl rfl
  by_cases hs : op = .step
  · subst hs
    have ho := m.step_outcome u
    simp only [apply]
    generalize m.step u = a at ho
    cases ho with
    | executed _ hat ho _ => exact m.callChange_executed hm hat ho u
    | @refused i r => cases r <;> exact .keep hr rfl rfl rfl
    | _ => exact .keep hr rfl rfl rfl
  · have hn := reply_ne_stepped m u hs
    refine .keep hr ?_ ?_ (congrArg CallStack.entries (sameCore_apply m u hs hr).calls)
    · unfold Reply.isCall
      split
      · next c h => exact absurd h (hn _)
      · rfl
    · unfold Reply.isReturn
      split
      · next c h => exact absurd h (hn _)
      · rfl

namespace CallChange

variable {m : Machine} {op : Operation} {a : After Reply}

theorem callers_eq (h : CallChange m op a) :
    a.machine.callers = op.callersAfter m.callers a.reply := by
  cases h with
  | reset hc _ => exact hc
  | call hr _ hc =>
    rw [hc, hr, Operation.callersAfter, if_pos (Instruction.nibble_three_encode_call _)]
  | ret hr hm hc _ =>
    have hn : Word.nibble 0x00EE 3 ≠ 2 := by decide
    rw [hc, hr, Operation.callersAfter, if_neg hn, if_pos rfl, hm, List.dropLast_concat]
  | keep ho hcall hret hc =>
    rw [hc]
    unfold Operation.callersAfter
    split
    · exact absurd rfl ho
    · next c hr =>
      rw [hr] at hcall hret
      rw [if_neg (beq_eq_false_iff_ne.1 hcall), if_neg (beq_eq_false_iff_ne.1 hret)]
    · rfl

/-- A call is one caller more, a return one less. -/
theorem length_callers (h : CallChange m op a) (ho : op ≠ .reset) :
    a.machine.callers.length + (if a.reply.isReturn then 1 else 0) =
      m.callers.length + (if a.reply.isCall then 1 else 0) := by
  cases h with
  | reset => exact absurd rfl ho
  | @call _ target hr _ hc =>
    have hret : Instruction.encode (.call target) ≠ 0x00EE := fun h =>
      nomatch Instruction.eq_of_encode (j := .ret) h rfl
    rw [hr, Reply.isCall_executed, Reply.isReturn_executed,
      Instruction.nibble_three_encode_call, beq_eq_false_iff_ne.2 hret, hc, List.length_append]
    rfl
  | ret hr hm hc _ =>
    have hcall : (Word.nibble 0x00EE 3 == 2) = false := by decide
    rw [hr, Reply.isCall_executed, Reply.isReturn_executed, hcall, beq_self_eq_true, hc, hm,
      List.length_append]
    rfl
  | keep _ hcall hret hc => rw [hcall, hret, hc]

theorem of_isCall (h : CallChange m op a) (hc : a.reply.isCall = true) :
    a.machine.callers = m.callers ++ [m.state.pc] := by
  cases h with
  | reset _ hr => rw [hr] at hc; cases hc
  | call _ _ h => exact h
  | ret hr =>
    have hn : (Word.nibble 0x00EE 3 == 2) = false := by decide
    rw [hr, Reply.isCall_executed, hn] at hc
    cases hc
  | keep _ hn => rw [hc] at hn; cases hn

theorem of_isReturn (h : CallChange m op a) (hr : a.reply.isReturn = true) :
    ∃ top, m.callers = a.machine.callers ++ [top] ∧
      a.machine.state.pc.toNat = top.toNat + 2 := by
  cases h with
  | reset _ hd => rw [hd] at hr; cases hr
  | @call _ target hc =>
    rw [hc, Reply.isReturn_executed, beq_iff_eq] at hr
    have hi : Instruction.call target = .ret := Instruction.eq_of_encode hr rfl
    cases hi
  | ret _ hm hc hpc => exact ⟨_, hc ▸ hm, hpc⟩
  | keep _ _ hn => rw [hr] at hn; cases hn

end CallChange

/-! ## A history of operations -/

section

variable {m : Machine}

theorem Machine.length_callers (hm : m.state.Bounded) : m.callers.length = m.state.calls.depth :=
  CallStack.length_entries hm.depth

/-- **The slots simulate a list**: what a history makes of the callers depends on nothing but the
callers and the replies. -/
theorem Operation.callers_run (hm : m.state.Bounded) (u : Supply) (ops : List Operation) :
    (run m u ops).machine.callers =
      (ops.zip (run m u ops).reply).foldl (fun callers entry =>
        entry.1.callersAfter callers entry.2) m.callers := by
  induction ops generalizing m u with
  | nil => rfl
  | cons op ops ih =>
    simp only [run, List.zip_cons_cons, List.foldl_cons]
    rw [ih (bounded_apply hm u op), (callChange hm u op).callers_eq]

theorem Operation.sinceReset_concat {ops : List Operation} {replies : List Reply}
    (h : ops.length = replies.length) (op : Operation) (r : Reply) :
    sinceReset (ops ++ [op]) (replies ++ [r]) =
      if op = .reset then [] else sinceReset ops replies ++ [r] := by
  rw [sinceReset, List.zip_append h, List.zip_cons_cons, List.zip_nil_left, List.rtakeWhile_concat]
  by_cases ho : op = .reset <;> simp [ho, sinceReset]

/-- **The depth counts the calls that have not returned** since the last reset. -/
theorem Operation.depth_run (hm : m.state.Bounded) (u : Supply) (ops : List Operation) :
    (run m u ops).machine.state.calls.depth +
        (sinceReset ops (run m u ops).reply).countP (·.isReturn) =
      (if .reset ∈ ops then 0 else m.state.calls.depth) +
        (sinceReset ops (run m u ops).reply).countP (·.isCall) := by
  -- from the end of the history, where a reset starts the count again
  induction ops using List.reverseRecOn with
  | nil => rfl
  | append_singleton ops op ih =>
    have hb := bounded_run hm u ops
    have hc := callChange hb (run m u ops).supply op
    have hd := Machine.length_callers (bounded_apply hb (run m u ops).supply op)
    rw [run_concat, sinceReset_concat (length_reply m u ops).symm]
    by_cases ho : op = .reset
    · subst ho
      simp only [if_true, List.mem_append, List.mem_singleton, or_true, List.countP_nil]
      rfl
    · have hl := hc.length_callers ho
      rw [hd, Machine.length_callers hb] at hl
      simp only [ho, if_false, List.countP_append, List.countP_singleton, List.mem_append,
        List.mem_singleton, Ne.symm ho, or_false]
      omega

/-! ## A call and its return -/

/-- From a call on, and as long as nothing returns to its depth, its address stays among the
callers, on top of those it found. -/
theorem Operation.prefix_callers (hm : m.state.Bounded) {u : Supply} {mid : List Operation}
    (hcall : (apply m u .step).reply.isCall = true) (hno : .reset ∉ mid)
    (hfirst : ∀ pre op, pre ++ [op] <+: mid →
      ¬ ReturnsTo m.state.calls.depth (run m u (.step :: pre)).machine
        (run m u (.step :: pre)).supply op) :
    m.callers ++ [m.state.pc] <+: (run m u (.step :: mid)).machine.callers := by
  induction mid using List.reverseRecOn with
  | nil => rw [← (callChange hm u .step).of_isCall hcall]; exact List.prefix_rfl
  | append_singleton mid op ih =>
    have hb := bounded_run hm u (.step :: mid)
    have hd := Machine.length_callers (bounded_apply hb (run m u (.step :: mid)).supply op)
    have hn := hfirst mid op List.prefix_rfl
    have ih := ih (fun h => hno (List.mem_append_left _ h)) fun pre op hpre =>
      hfirst pre op (hpre.trans (List.prefix_append _ _))
    rw [← List.cons_append, run_concat]
    cases callChange hb (run m u (.step :: mid)).supply op with
    | reset => exact absurd (List.mem_append_right _ (List.mem_singleton.2 rfl)) hno
    | call _ _ hc => exact hc ▸ ih.trans (List.prefix_append _ _)
    | keep _ _ _ hc => exact hc ▸ ih
    | @ret a rest top hr hold hc _ =>
      rw [hold] at ih
      rcases List.prefix_concat_iff.1 ih with heq | hpre
      · -- the return would be the one that ends the call
        refine absurd ⟨?_, ?_⟩ hn
        · rw [hr]
          rfl
        · rw [← hd, hc, ← (List.append_inj' heq rfl).1, Machine.length_callers hm]
      · exact hc ▸ hpre

/-- **A call returns behind itself.** The first return to the depth of a call finds the callers
that the call found, and goes on behind the call. -/
theorem Operation.run_matched (hm : m.state.Bounded) {u : Supply} {mid : List Operation}
    {last : Operation} (hcall : (apply m u .step).reply.isCall = true) (hno : .reset ∉ mid)
    (hfirst : ∀ pre op, pre ++ [op] <+: mid →
      ¬ ReturnsTo m.state.calls.depth (run m u (.step :: pre)).machine
        (run m u (.step :: pre)).supply op)
    (hlast : ReturnsTo m.state.calls.depth (run m u (.step :: mid)).machine
      (run m u (.step :: mid)).supply last) :
    (run m u (.step :: mid ++ [last])).machine.state.pc.toNat = m.state.pc.toNat + 2 ∧
      (run m u (.step :: mid ++ [last])).machine.callers = m.callers := by
  have hb := bounded_run hm u (.step :: mid)
  have hpre := prefix_callers hm hcall hno hfirst
  obtain ⟨hr, hdepth⟩ := hlast
  obtain ⟨top, hold, hpc⟩ := (callChange hb (run m u (.step :: mid)).supply last).of_isReturn hr
  rw [← Machine.length_callers (bounded_apply hb _ last), ← Machine.length_callers hm] at hdepth
  rw [hold] at hpre
  have heq := hpre.eq_of_length (by rw [List.length_append, List.length_append, hdepth]; rfl)
  obtain ⟨hcallers, htop⟩ := List.append_inj' heq rfl
  rw [run_concat]
  refine ⟨?_, hcallers.symm⟩
  rw [hpc, List.singleton_inj.1 htop]

/-! ## When calls and returns go through -/

namespace Machine

variable {u : Supply}

theorem executes_iff {i : Instruction} (hm : m.state.Bounded) (hp : m.paused = false)
    (hat : m.state.At i) :
    (∃ c, (m.step u).reply = .executed c) ↔ i.obstacle m.state = none := by
  have ht := Instruction.target_le hm hat.1 i
  rw [step_executes_iff hp hat]
  exact and_iff_left (by omega)

theorem call_executes_iff {target : Fin 4096} (hm : m.state.Bounded) (hp : m.paused = false)
    (hat : m.state.At (.call target)) :
    (∃ c, (m.step u).reply = .executed c) ↔ m.callers.length < 16 := by
  have hd := hm.depth
  rw [executes_iff hm hp hat, length_callers hm, Instruction.obstacle]
  by_cases h16 : m.state.calls.depth = 16
  · simp [h16]
  · rw [if_neg h16, if_neg (by omega)]
    exact iff_of_true rfl (by omega)

theorem ret_executes_iff (hm : m.state.Bounded) (hp : m.paused = false) (hat : m.state.At .ret) :
    (∃ c, (m.step u).reply = .executed c) ↔ m.callers ≠ [] := by
  have hd := hm.depth
  rw [executes_iff hm hp hat, ne_eq, ← List.length_eq_zero_iff, length_callers hm,
    Instruction.obstacle]
  by_cases h0 : m.state.calls.depth = 0
  · simp [h0]
  · rw [if_neg h0, if_neg (by omega)]
    exact iff_of_true rfl h0

theorem callers_of_call {target : Fin 4096} (hm : m.state.Bounded) (hp : m.paused = false)
    (hat : m.state.At (.call target)) (h : m.callers.length < 16) :
    (m.step u).machine.callers = m.callers ++ [m.state.pc] := by
  obtain ⟨c, hc⟩ := (call_executes_iff hm hp hat).2 h
  refine (Operation.callChange hm u .step).of_isCall ?_
  rw [Operation.apply, hc, cycle_of_executed hc, Reply.isCall_executed, hat.2]
  exact beq_iff_eq.2 (Instruction.nibble_three_encode_call target)

theorem callers_of_ret {rest : List Word} {top : Word} (hm : m.state.Bounded)
    (hp : m.paused = false) (hat : m.state.At .ret) (h : m.callers = rest ++ [top]) :
    (m.step u).machine.callers = rest ∧
      (m.step u).machine.state.pc.toNat = top.toNat + 2 := by
  have hne : m.callers ≠ [] := by rw [h]; exact List.append_ne_nil_of_right_ne_nil _ (by simp)
  obtain ⟨c, hc⟩ := (ret_executes_iff hm hp hat).2 hne
  have hr : ((Operation.step).apply m u).reply.isReturn = true := by
    rw [Operation.apply, hc, cycle_of_executed hc, Reply.isReturn_executed, hat.2]
    rfl
  obtain ⟨top', hold, hpc⟩ := (Operation.callChange hm u .step).of_isReturn hr
  obtain ⟨hrest, htop⟩ := List.append_inj' (h.symm.trans hold) rfl
  rw [List.singleton_inj.1 htop]
  exact ⟨hrest.symm, hpc⟩

end Machine

end

/-- **The call stack is a list** of at most sixteen addresses: a call that finds room puts its own
address at the end, a return takes the last one away and goes behind it, a reset empties the list,
and nothing else changes it. The depth counts the calls that have not returned since the last
reset, and a call returns behind itself. The slots that are not live never matter. -/
theorem call_stack_refines_list {m : Machine} (h : Reachable m) :
    (m.callers.length = m.state.calls.depth ∧ m.callers.length ≤ 16) ∧
    (∀ u target, m.paused = false → m.state.At (.call target) →
      ((∃ c, (m.step u).reply = .executed c) ↔ m.callers.length < 16) ∧
      (m.callers.length < 16 → (m.step u).machine.callers = m.callers ++ [m.state.pc])) ∧
    (∀ u, m.paused = false → m.state.At .ret →
      ((∃ c, (m.step u).reply = .executed c) ↔ m.callers ≠ []) ∧
      ∀ rest top, m.callers = rest ++ [top] →
        (m.step u).machine.callers = rest ∧
          (m.step u).machine.state.pc.toNat = top.toNat + 2) ∧
    (∀ u c, (m.step u).reply = .executed c → c = ⟨m.state.word, m.state.pc⟩) ∧
    (∀ u ops, (Operation.run m u ops).machine.callers =
      (ops.zip (Operation.run m u ops).reply).foldl (fun callers entry =>
        entry.1.callersAfter callers entry.2) m.callers) ∧
    (∀ u ops, (Operation.run m u ops).machine.state.calls.depth +
        (Operation.sinceReset ops (Operation.run m u ops).reply).countP (·.isReturn) =
      (if .reset ∈ ops then 0 else m.state.calls.depth) +
        (Operation.sinceReset ops (Operation.run m u ops).reply).countP (·.isCall)) ∧
    (∀ u mid last, (Operation.apply m u .step).reply.isCall = true → .reset ∉ mid →
      (∀ pre op, pre ++ [op] <+: mid →
        ¬ Operation.ReturnsTo m.state.calls.depth (Operation.run m u (.step :: pre)).machine
          (Operation.run m u (.step :: pre)).supply op) →
      Operation.ReturnsTo m.state.calls.depth (Operation.run m u (.step :: mid)).machine
        (Operation.run m u (.step :: mid)).supply last →
      (Operation.run m u (.step :: mid ++ [last])).machine.state.pc.toNat =
          m.state.pc.toNat + 2 ∧
        (Operation.run m u (.step :: mid ++ [last])).machine.callers = m.callers) ∧
    (∀ m', m.SameLive m' → ∀ u ops, After.Alike (List.Forall₂ Reply.SameLive) Machine.SameLive
      (Operation.run m u ops) (Operation.run m' u ops)) := by
  have hm := h.bounded
  have hl := Machine.length_callers hm
  refine ⟨⟨hl, hl ▸ hm.depth⟩, fun u target hp hat => ?_, fun u hp hat => ?_,
    fun u c => Machine.cycle_of_executed, Operation.callers_run hm, Operation.depth_run hm,
    fun u mid last => Operation.run_matched hm, fun m' => sameLive_run⟩
  · exact ⟨Machine.call_executes_iff hm hp hat, Machine.callers_of_call hm hp hat⟩
  · exact ⟨Machine.ret_executes_iff hm hp hat, fun _ _ => Machine.callers_of_ret hm hp hat⟩

/-- A new machine with a program that calls a subroutine, which calls another one. -/
def Machine.callingTwice : Machine :=
  (Operation.run (.new .flat) (.ofSeed 1)
    [.load [0x22, 0x04, 0x00, 0x00, 0x22, 0x08, 0x00, 0xEE, 0x00, 0xEE]]).machine

/-- The inner call and its return, which leaves one call open, stand between the outer call and the
return that ends it. -/
theorem call_returns_behind_itself :
    let u := Supply.ofSeed 1
    let inner : List Operation := [.step, .step]
    Reachable .callingTwice ∧
      ((Operation.apply .callingTwice u .step).reply.isCall = true ∧ .reset ∉ inner ∧
        (∀ pre op, pre ++ [op] <+: inner →
          ¬ Operation.ReturnsTo 0 (Operation.run .callingTwice u (.step :: pre)).machine
            (Operation.run .callingTwice u (.step :: pre)).supply op) ∧
        Operation.ReturnsTo 0 (Operation.run .callingTwice u (.step :: inner)).machine
          (Operation.run .callingTwice u (.step :: inner)).supply .step) ∧
      (Operation.run .callingTwice u (.step :: inner ++ [.step])).machine.state.pc.toNat = 0x202 ∧
      (Operation.run .callingTwice u (.step :: inner ++ [.step])).machine.callers = [] := by
  intro u inner
  have hm : Reachable .callingTwice := (Reachable.new .flat).run _ _
  have hreset : .reset ∉ inner := by decide
  have hparts : ∀ pre op, pre ++ [op] <+: inner → op = .step ∧ (pre = [] ∨ pre = [.step]) := by
    rintro (_ | ⟨a, _ | ⟨b, pre⟩⟩) op hpre
    · exact ⟨(List.cons_prefix_cons.1 hpre).1, .inl rfl⟩
    · obtain ⟨rfl, hrest⟩ := List.cons_prefix_cons.1 hpre
      exact ⟨(List.cons_prefix_cons.1 hrest).1, .inr rfl⟩
    · have hlen := hpre.length_le
      simp [inner] at hlen
  -- Behind the outer call come the inner call, the inner return and the return that is last.
  obtain ⟨hcall, hinner, hopen, hlast, hpc, hdepth, hcallers⟩ :
      (Operation.apply .callingTwice u .step).reply.isCall = true ∧
      ¬ Operation.ReturnsTo 0 (Operation.run .callingTwice u [.step]).machine
        (Operation.run .callingTwice u [.step]).supply .step ∧
      ¬ Operation.ReturnsTo 0 (Operation.run .callingTwice u [.step, .step]).machine
        (Operation.run .callingTwice u [.step, .step]).supply .step ∧
      Operation.ReturnsTo 0 (Operation.run .callingTwice u (.step :: inner)).machine
        (Operation.run .callingTwice u (.step :: inner)).supply .step ∧
      Machine.callingTwice.state.pc.toNat = 0x200 ∧
      Machine.callingTwice.state.calls.depth = 0 ∧ Machine.callingTwice.callers = [] := by
    decide +kernel
  have hfirst : ∀ pre op, pre ++ [op] <+: inner →
      ¬ Operation.ReturnsTo 0 (Operation.run .callingTwice u (.step :: pre)).machine
        (Operation.run .callingTwice u (.step :: pre)).supply op := by
    intro pre op hpre
    obtain ⟨rfl, rfl | rfl⟩ := hparts pre op hpre
    · exact hinner
    · exact hopen
  obtain ⟨-, -, -, -, -, -, hmatched, -⟩ := call_stack_refines_list hm
  rw [hpc, hdepth, hcallers] at hmatched
  exact ⟨hm, ⟨hcall, hreset, hfirst, hlast⟩, hmatched u inner .step hcall hreset hfirst hlast⟩

end Chip8VM
