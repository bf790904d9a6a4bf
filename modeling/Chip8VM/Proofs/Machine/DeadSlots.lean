import Chip8VM.Proofs.Machine.Run

/-!
# Slots above the call stack

A pop leaves its address behind in a slot above the live ones. Nothing ever depends on such a slot:
machines that differ in no other way (`Machine.SameLive`) give the same replies to every history of
operations and go on differing in no other way (`sameLive_run`).
-/

set_option autoImplicit false

namespace Chip8VM

/-- The stacks have the same live addresses; their other slots may differ. -/
structure CallStack.SameLive (c d : CallStack) : Prop where
  depth : d.depth = c.depth
  live : ∀ k : Fin 16, k.val < c.depth → d.slots[k] = c.slots[k]

namespace CallStack.SameLive

variable {c d : CallStack}

theorem refl (c : CallStack) : c.SameLive c := ⟨rfl, fun _ _ => rfl⟩

theorem entries (h : c.SameLive d) : d.entries = c.entries := by
  apply List.ext_getElem
  · simp only [CallStack.entries, List.length_take, Vector.length_toList, h.depth]
  · intro k hk hk'
    simp only [CallStack.entries, List.length_take, Vector.length_toList] at hk'
    simp only [CallStack.entries, List.getElem_take, Vector.getElem_toList]
    exact h.live ⟨k, by omega⟩ (by show k < c.depth; omega)

theorem top (h : c.SameLive d) : d.top = c.top := by
  rw [CallStack.top, h.entries, CallStack.top]

theorem dropTop (h : c.SameLive d) : c.dropTop.SameLive d.dropTop where
  depth := congrArg (· - 1) h.depth
  live k hk := h.live k (Nat.lt_of_lt_of_le hk (Nat.sub_le _ _))

theorem putTop (h : c.SameLive d) (address : Word) :
    (c.putTop address).SameLive (d.putTop address) where
  depth := congrArg (· + 1) h.depth
  live k hk := by
    simp only [CallStack.putTop, Fin.getElem_fin, Vector.getElem_setIfInBounds, h.depth]
    split
    · rfl
    · next hne =>
      have hk : k.val < c.depth + 1 := hk
      exact h.live k (by omega)

end CallStack.SameLive

/-- The state with another call stack. -/
def State.withCalls (s : State) (c : CallStack) : State := { s with calls := c }

/-- The machine with another call stack. -/
def Machine.withCalls (m : Machine) (c : CallStack) : Machine :=
  { m with state := m.state.withCalls c }

/-- The machines differ at most in slots above their live addresses. -/
def Machine.SameLive (m m' : Machine) : Prop :=
  ∃ c, m.state.calls.SameLive c ∧ m' = m.withCalls c

/-- The replies are the same, or states that differ at most in slots above their live addresses. -/
def Reply.SameLive (r r' : Reply) : Prop :=
  r' = r ∨ ∃ s c, s.calls.SameLive c ∧ r = .state s ∧ r' = .state (s.withCalls c)

theorem Machine.SameLive.refl (m : Machine) : m.SameLive m := ⟨m.state.calls, .refl _, rfl⟩

theorem Reply.SameLive.refl (r : Reply) : r.SameLive r := .inl rfl

/-! ## Instructions -/

namespace Instruction

variable {s : State} {c : CallStack}

theorem obstacle_withCalls (h : s.calls.SameLive c) (i : Instruction) :
    i.obstacle (s.withCalls c) = i.obstacle s := by
  have hd : (s.withCalls c).calls.depth = s.calls.depth := h.depth
  cases i with
  | ret => simp only [obstacle, hd]; rfl
  | call target => simp only [obstacle, hd]; rfl
  | _ => rfl

theorem target_withCalls (h : s.calls.SameLive c) (i : Instruction) :
    i.target (s.withCalls c) = i.target s := by
  cases i with
  | ret => exact congrArg (·.toNat + 2) h.top
  | _ => rfl

/-- An instruction makes the same of both states, up to dead slots. -/
theorem effect_withCalls (h : s.calls.SameLive c) (wrap : Wrap) (byte : UInt8) (i : Instruction) :
    ∃ d, (i.effect wrap byte s).calls.SameLive d ∧
      i.effect wrap byte (s.withCalls c) = (i.effect wrap byte s).withCalls d := by
  cases i with
  | ret => exact ⟨c.dropTop, h.dropTop, rfl⟩
  | call target => exact ⟨c.putTop s.pc, h.putTop s.pc, rfl⟩
  | _ =>
    refine ⟨c, ?_, rfl⟩
    rw [effect_calls]
    exact h

end Instruction

/-! ## Operations -/

theorem Machine.sameLive_step {m : Machine} {c : CallStack} (hc : m.state.calls.SameLive c)
    (u : Supply) : After.Alike Eq SameLive (m.step u) ((m.withCalls c).step u) := by
  refine step_alike ⟨c, hc, rfl⟩ rfl rfl rfl (Instruction.obstacle_withCalls hc)
    (Instruction.target_withCalls hc) fun i _ _ => ?_
  obtain ⟨d, hd, he⟩ := Instruction.effect_withCalls hc m.wrap u.peek i
  refine ⟨d, hd, ?_⟩
  have ht := Instruction.target_withCalls hc i
  simp only [executed, commit, Instruction.result, withCalls, he, ht]
  rfl

theorem Operation.sameLive_apply (m m' : Machine) (u : Supply) (op : Operation)
    (h : m.SameLive m') :
    After.Alike Reply.SameLive Machine.SameLive (op.apply m u) (op.apply m' u) := by
  obtain ⟨c, hc, rfl⟩ := h
  cases op with
  | step =>
    have ha := Machine.sameLive_step hc u
    exact ⟨.inl (congrArg Reply.stepped ha.reply.symm), ha.machine, ha.supply⟩
  | reset => exact ⟨.refl _, .refl _, rfl⟩
  | load image =>
    exact settle_alike .refl ⟨c, hc, rfl⟩ u (Machine.load_alike image ⟨c, hc, rfl⟩)
  | loadFrom source =>
    exact settle_alike .refl ⟨c, hc, rfl⟩ u
      (Machine.loadFrom_alike source fun _ => ⟨c, hc, rfl⟩)
  | press key =>
    exact settle_alike .refl ⟨c, hc, rfl⟩ u
      (Machine.setKey_alike key true fun _ => ⟨c, hc, rfl⟩)
  | release key =>
    exact settle_alike .refl ⟨c, hc, rfl⟩ u
      (Machine.setKey_alike key false fun _ => ⟨c, hc, rfl⟩)
  | tick =>
    have hp : (m.withCalls c).paused = m.paused := rfl
    simp only [apply, Machine.tick, hp]
    cases m.paused <;> exact ⟨.refl _, ⟨c, hc, rfl⟩, rfl⟩
  | takeFrame =>
    have hd : (m.withCalls c).state.drawn = m.state.drawn := rfl
    simp only [apply, Machine.takeFrame, hd]
    cases m.state.drawn <;> exact ⟨.refl _, ⟨c, hc, rfl⟩, rfl⟩
  | state => exact ⟨.inr ⟨m.state, c, hc, rfl, rfl⟩, ⟨c, hc, rfl⟩, rfl⟩
  | _ => exact ⟨.refl _, ⟨c, hc, rfl⟩, rfl⟩

/-- **Dead slots never matter.** -/
theorem sameLive_run {m m' : Machine} (h : m.SameLive m') (u : Supply) (ops : List Operation) :
    After.Alike (List.Forall₂ Reply.SameLive) Machine.SameLive (Operation.run m u ops)
      (Operation.run m' u ops) :=
  Operation.run_alike Operation.sameLive_apply h u ops

end Chip8VM
