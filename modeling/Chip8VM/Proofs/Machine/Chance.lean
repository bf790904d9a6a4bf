import Chip8VM.Proofs.Machine.Audience

/-!
# Where chance comes in

Random bytes come into a machine through `CXNN` alone, one for each that is executed, and of its
byte only the bits that the mask `NN` lets through (`Machine.supply_step`, `Machine.step_congr`). So
`Operation.masks` of the replies to a history says how many bytes it took and what it saw of each: a
history goes the same with any other supply whose bytes, one draw after another, look the same
through these masks (`Operation.run_congr`).
-/

set_option autoImplicit false

namespace Chip8VM

namespace Supply

/-- The supply behind `n` draws. -/
def skip (u : Supply) (n : Nat) : Supply := { u with taken := u.taken + n }

theorem skip_skip (u : Supply) (n k : Nat) : (u.skip n).skip k = u.skip (n + k) := by
  simp only [skip, Nat.add_assoc]

/-- The bytes that two supplies give look the same through the masks, one draw after another. -/
def Agree (u u' : Supply) (masks : List UInt8) : Prop :=
  ∀ k mask, masks[k]? = some mask → u.byte (u.taken + k) &&& mask = u'.byte (u'.taken + k) &&& mask

theorem Agree.left {u u' : Supply} {masks rest : List UInt8} (h : u.Agree u' (masks ++ rest)) :
    u.Agree u' masks := by
  intro k mask hk
  refine h k mask ?_
  rw [List.getElem?_append_left (List.getElem?_eq_some_iff.1 hk).1]
  exact hk

theorem Agree.right {u u' : Supply} {masks rest : List UInt8} (h : u.Agree u' (masks ++ rest)) :
    (u.skip masks.length).Agree (u'.skip masks.length) rest := by
  intro k mask hk
  have hlater := h (masks.length + k) mask
  rw [List.getElem?_append_right (Nat.le_add_right _ _), Nat.add_sub_cancel_left] at hlater
  simpa only [skip, Nat.add_assoc] using hlater hk

end Supply

/-- The masks of the random instructions that a reply reports: `NN` if `CXNN` was executed. -/
def Reply.masks (r : Reply) : List UInt8 :=
  (r.cycles.filter (·.word.nibble 3 = 0xC)).map (·.word.low)

theorem Reply.length_masks (r : Reply) :
    r.masks.length = if ∃ c ∈ r.cycles, c.word.nibble 3 = 0xC then 1 else 0 := by
  unfold masks
  by_cases h : ∃ c, r = .stepped (.executed c)
  · obtain ⟨c, rfl⟩ := h
    by_cases hc : c.word.nibble 3 = 0xC <;> simp [cycles, hc]
  · have hnone : r.cycles = [] := by
      unfold cycles
      split
      · exact absurd ⟨_, rfl⟩ h
      · rfl
    simp [hnone]

/-- The masks of the random instructions that were executed in the course of a history. -/
def Operation.masks (replies : List Reply) : List UInt8 := replies.flatMap Reply.masks

/-! ## Instructions -/

namespace Instruction

/-- The mask of a random instruction. -/
def mask? : Instruction → Option UInt8
  | .random _ mask => some mask
  | _ => none

theorem nibble_three_encode_eq_random {i : Instruction} (h : i.encode.nibble 3 = 0xC) :
    i = .random i.encode.x i.encode.low := by
  have hd := i.decode?_encode
  simp only [decode?, h] at hd
  exact (Option.some.inj hd).symm

theorem masks_executed (i : Instruction) (pc : Word) :
    Reply.masks (.stepped (.executed ⟨i.encode, pc⟩)) = i.mask?.toList := by
  by_cases h : i.encode.nibble 3 = 0xC
  · have hmask : i.mask? = some i.encode.low :=
      congrArg mask? (nibble_three_encode_eq_random h)
    simp [Reply.masks, Reply.cycles, h, hmask]
  · have hmask : i.mask? = none := by
      cases i with
      | random x mask => exact absurd (Word.nibble_three_ofByte _ _ _) h
      | _ => rfl
    simp [Reply.masks, Reply.cycles, h, hmask]

theorem effect_congr (wrap : Wrap) {byte byte' : UInt8} (s : State) {i : Instruction}
    (h : ∀ mask ∈ i.mask?, byte &&& mask = byte' &&& mask) :
    i.effect wrap byte' s = i.effect wrap byte s := by
  cases i with
  | random x mask => rw [effect, effect, h mask rfl]
  | _ => rfl

end Instruction

/-! ## One operation -/

namespace Machine

/-- A step takes a byte for each random instruction that it executes: one or none. -/
theorem supply_step (m : Machine) (u : Supply) :
    (m.step u).supply = u.skip (Reply.masks (.stepped (m.step u).reply)).length := by
  have ho := m.step_outcome u
  generalize m.step u = a at ho ⊢
  cases ho with
  | @executed i =>
    simp only [executed, i.masks_executed]
    cases i <;> rfl
  | @refused i r => cases r <;> rfl
  | _ => rfl

/-- **A step goes the same** if the byte looks the same through the mask. -/
theorem step_congr {m : Machine} {u u' : Supply}
    (h : ∀ mask ∈ (Reply.masks (.stepped (m.step u).reply)).head?,
      u.peek &&& mask = u'.peek &&& mask) :
    (m.step u').reply = (m.step u).reply ∧ (m.step u').machine = (m.step u).machine := by
  have ho := m.step_outcome u
  generalize m.step u = a at ho h ⊢
  cases ho with
  | paused hp =>
    rw [step_of_paused hp]
    exact ⟨rfl, rfl⟩
  | offMemory hp hpc =>
    rw [step_of_offMemory hp hpc]
    exact ⟨rfl, rfl⟩
  | unknown hp hpc hw =>
    rw [step_of_unknown hp hpc hw]
    exact ⟨rfl, rfl⟩
  | refused hp hat hr =>
    rw [step_of_at hp hat, hr]
    exact ⟨rfl, rfl⟩
  | overrun hp hat hn hlt =>
    rw [step_of_at hp hat, hn]
    simp [Nat.not_lt_of_le hlt]
  | @executed i hp hat hn hlt =>
    have heffect : i.effect m.wrap u'.peek m.state = i.effect m.wrap u.peek m.state := by
      refine i.effect_congr m.wrap m.state fun mask hmask => h mask ?_
      rw [executed, i.masks_executed, Option.mem_def.1 hmask]
      rfl
    rw [step_of_at hp hat, hn]
    simp [hlt, executed, Instruction.result, heffect]

/-- What `CXNN` makes of a machine. -/
theorem step_of_random {m : Machine} {u : Supply} {c : Cycle}
    (hc : (m.step u).reply = .executed c) (hword : c.word.nibble 3 = 0xC) :
    (m.step u).machine.state =
      { m.state.setV c.word.x (u.peek &&& c.word.low) with pc := m.state.pc + 2 } := by
  obtain ⟨i, -, rfl, -, -, hstate⟩ := step_of_executed hc
  have hi := Instruction.nibble_three_encode_eq_random hword
  generalize i.encode.x = x, i.encode.low = mask at hi ⊢
  rw [hstate, hi, ← m.state.ofNat_behind]
  rfl

end Machine

namespace Operation

variable {m : Machine} {u u' : Supply}

theorem supply_apply_of_ne (m : Machine) (u : Supply) {op : Operation} (h : op ≠ .step) :
    (op.apply m u).supply = u := by
  cases op with
  | step => exact absurd rfl h
  | _ => rfl

theorem masks_of_ne {op : Operation} (h : op ≠ .step) : (op.apply m u).reply.masks = [] := by
  rw [Reply.masks, Reply.cycles_eq_nil (reply_ne_stepped m u h)]
  rfl

/-- **What an operation takes**: a byte for each random instruction that it executes. -/
theorem supply_apply (m : Machine) (u : Supply) (op : Operation) :
    (op.apply m u).supply = u.skip (op.apply m u).reply.masks.length := by
  by_cases hs : op = .step
  · subst hs
    exact m.supply_step u
  · rw [supply_apply_of_ne m u hs, masks_of_ne hs]
    rfl

theorem apply_congr {op : Operation} (h : u.Agree u' (op.apply m u).reply.masks) :
    (op.apply m u').reply = (op.apply m u).reply ∧
      (op.apply m u').machine = (op.apply m u).machine := by
  by_cases hs : op = .step
  · subst hs
    have hpeek : ∀ mask ∈ (Reply.masks (.stepped (m.step u).reply)).head?,
        u.peek &&& mask = u'.peek &&& mask := by
      intro mask hmask
      exact h 0 mask (List.head?_eq_getElem?.symm.trans hmask)
    obtain ⟨hreply, hmachine⟩ := Machine.step_congr hpeek
    exact ⟨congrArg Reply.stepped hreply, hmachine⟩
  · cases op with
    | step => exact absurd rfl hs
    | _ => exact ⟨rfl, rfl⟩

/-! ## A history -/

theorem supply_run (m : Machine) (u : Supply) (ops : List Operation) :
    (run m u ops).supply = u.skip (masks (run m u ops).reply).length := by
  induction ops generalizing m u with
  | nil => rfl
  | cons op ops ih =>
    show (run _ (op.apply m u).supply ops).supply = u.skip (masks (_ :: _)).length
    rw [ih, supply_apply, Supply.skip_skip, masks, masks, List.flatMap_cons, List.length_append]

/-- **A history goes the same** with supplies that look the same through its masks. -/
theorem run_congr {ops : List Operation} (h : u.Agree u' (masks (run m u ops).reply)) :
    (run m u' ops).reply = (run m u ops).reply ∧
      (run m u' ops).machine = (run m u ops).machine := by
  induction ops generalizing m u u' with
  | nil => exact ⟨rfl, rfl⟩
  | cons op ops ih =>
    simp only [run, masks, List.flatMap_cons] at h ⊢
    obtain ⟨hreply, hmachine⟩ := apply_congr h.left
    have hrest := h.right
    rw [← supply_apply, ← hreply, ← supply_apply] at hrest
    obtain ⟨hreplies, hend⟩ := ih hrest
    rw [hreply, hmachine, hreplies, hend]
    exact ⟨rfl, rfl⟩

theorem masks_append (m : Machine) (u : Supply) (ops₁ ops₂ : List Operation) :
    masks (run m u (ops₁ ++ ops₂)).reply = masks (run m u ops₁).reply ++
      masks (run (run m u ops₁).machine (run m u ops₁).supply ops₂).reply := by
  rw [run_append, masks, List.flatMap_append, masks, masks]

end Operation

/-- **Chance comes in through masked bytes alone.** Let `k` be the number of `CXNN` that a history
has executed. Then it has taken `k` bytes of the supply, so that the next one is byte `k`. An
operation behind it takes that byte if it executes a `CXNN`, whatever `NN` is, and none otherwise,
be it another instruction, a step that fails, waits or finds the machine paused, or no step at all;
and such a `CXNN` puts that byte, masked with `NN`, into `VX` and goes on, the other registers and
all else staying as they are. Two supplies of which, for each `k`, byte `k` looks the same through
the mask of the `CXNN` that is executed as number `k` with the first of them lead every part of the
history to the same replies and the same machine. -/
theorem chance_comes_in_masked (m : Machine) (u : Supply) :
    (∀ ops : List Operation,
      let k := (Operation.masks (Operation.run m u ops).reply).length
      let m' := (Operation.run m u ops).machine
      let u' := (Operation.run m u ops).supply
      u' = ⟨u.byte, u.taken + k⟩ ∧
      (∀ op : Operation, (op.apply m' u').supply =
        if ∃ c ∈ (op.apply m' u').reply.cycles, c.word.nibble 3 = 0xC
        then ⟨u.byte, u.taken + k + 1⟩ else u') ∧
      ∀ c, (m'.step u').reply = .executed c → c.word.nibble 3 = 0xC →
        let next := (m'.step u').machine.state
        next = { m'.state.setV c.word.x (u.byte (u.taken + k) &&& c.word.low) with
          pc := m'.state.pc + 2 } ∧
        next.v.get c.word.x = u.byte (u.taken + k) &&& c.word.low ∧
        (∀ r, r ≠ c.word.x → next.v.get r = m'.state.v.get r) ∧
        next.pc = m'.state.pc + 2) ∧
    ∀ (u' : Supply) (ops : List Operation),
      (∀ k mask, (Operation.masks (Operation.run m u ops).reply)[k]? = some mask →
        u.byte (u.taken + k) &&& mask = u'.byte (u'.taken + k) &&& mask) →
      ∀ pre, pre <+: ops →
        (Operation.run m u' pre).reply = (Operation.run m u pre).reply ∧
          (Operation.run m u' pre).machine = (Operation.run m u pre).machine := by
  constructor
  · intro ops k m' u'
    have hu : u' = ⟨u.byte, u.taken + k⟩ := Operation.supply_run m u ops
    refine ⟨hu, fun op => ?_, fun c hc hword => ?_⟩
    · rw [Operation.supply_apply, Reply.length_masks]
      split
      · rw [hu]
        rfl
      · rfl
    · intro next
      have hpeek : u'.peek = u.byte (u.taken + k) := congrArg Supply.peek hu
      have hnext : next = { m'.state.setV c.word.x (u'.peek &&& c.word.low) with
          pc := m'.state.pc + 2 } := Machine.step_of_random hc hword
      rw [hpeek] at hnext
      exact ⟨hnext, State.reads_of_eq_setV hnext⟩
  · rintro u' ops h pre ⟨rest, rfl⟩
    rw [Operation.masks_append] at h
    exact Operation.run_congr (Supply.Agree.left h)

/-- Two supplies that differ in every byte, but not in the bits that the program looks at, of which
it looks at none of the second byte. -/
theorem chance_comes_in_masked_of_unequal_supplies :
    let ops : List Operation :=
      [.load [0xC0, 0x0F, 0xC1, 0x00, 0xC2, 0xF0], .step, .tick, .step, .step]
    let u := Supply.ofArray #[0x12, 0x34, 0x56]
    let u' := Supply.ofArray #[0xF2, 0x99, 0x5A]
    let m := Machine.new .flat
    let last := (Operation.run m u (ops.take 4)).machine
    ((∀ k mask, (Operation.masks (Operation.run m u ops).reply)[k]? = some mask →
        u.byte (u.taken + k) &&& mask = u'.byte (u'.taken + k) &&& mask) ∧
      ops <+: ops ∧ (last.step (u.skip 2)).reply = .executed ⟨0xC2F0, 0x204⟩ ∧
      Word.nibble 0xC2F0 3 = 0xC) ∧
    (Operation.run m u' ops).machine = (Operation.run m u ops).machine ∧
      (last.step (u.skip 2)).machine.state =
        { last.state.setV 2 0x50 with pc := last.state.pc + 2 } ∧
      (last.step (u.skip 2)).machine.state.v.get 2 = 0x50 := by
  intro ops u u' m last
  obtain ⟨hmasks, hlength⟩ : Operation.masks (Operation.run m u ops).reply = [0x0F, 0x00, 0xF0] ∧
      (Operation.masks (Operation.run m u (ops.take 4)).reply).length = 2 := by
    decide +kernel
  have hagree : ∀ k mask, (Operation.masks (Operation.run m u ops).reply)[k]? = some mask →
      u.byte (u.taken + k) &&& mask = u'.byte (u'.taken + k) &&& mask := by
    intro k mask hk
    rw [hmasks] at hk
    match k, hk with
    | 0, hk => cases hk; decide
    | 1, hk => cases hk; decide
    | 2, hk => cases hk; decide
  have hstep : (last.step (u.skip 2)).reply = .executed ⟨0xC2F0, 0x204⟩ := by decide +kernel
  have hword : Word.nibble 0xC2F0 3 = 0xC := by decide
  obtain ⟨hdraws, hsame⟩ := chance_comes_in_masked m u
  obtain ⟨hsupply, -, hstate⟩ := hdraws (ops.take 4)
  rw [hsupply, hlength] at hstate
  have hx : Word.x 0xC2F0 = 2 := by decide
  have hbyte : u.byte (u.taken + 2) &&& Word.low 0xC2F0 = 0x50 := by decide
  obtain ⟨hlast, hput, -⟩ := hstate _ hstep hword
  simp only [hx, hbyte] at hlast hput
  exact ⟨⟨hagree, List.prefix_rfl, hstep, hword⟩, (hsame u' ops hagree ops List.prefix_rfl).2,
    hlast, hput⟩

end Chip8VM
