import Mathlib.Data.List.Forall2
import Chip8VM.Proofs.Machine.Outcome

/-!
# Histories of a machine

A history taken apart (`run_append`), the machines that some history leads to (`Reachable`), what
an operation other than a step leaves alone (`Operation.sameCore_apply`), and two machines on which
everything goes alike (`Machine.step_alike`, `Operation.run_alike`).
-/

set_option autoImplicit false

namespace Chip8VM

namespace Operation

/-! ## Histories, one after another -/

theorem run_append (m : Machine) (u : Supply) (ops₁ ops₂ : List Operation) :
    run m u (ops₁ ++ ops₂) =
      ⟨(run m u ops₁).reply ++ (run (run m u ops₁).machine (run m u ops₁).supply ops₂).reply,
        (run (run m u ops₁).machine (run m u ops₁).supply ops₂).machine,
        (run (run m u ops₁).machine (run m u ops₁).supply ops₂).supply⟩ := by
  induction ops₁ generalizing m u with
  | nil => rfl
  | cons op ops ih => simp only [List.cons_append, run, ih]

/-- A history with one more operation at its end. -/
theorem run_concat (m : Machine) (u : Supply) (ops : List Operation) (op : Operation) :
    run m u (ops ++ [op]) =
      ⟨(run m u ops).reply ++ [(op.apply (run m u ops).machine (run m u ops).supply).reply],
        (op.apply (run m u ops).machine (run m u ops).supply).machine,
        (op.apply (run m u ops).machine (run m u ops).supply).supply⟩ := by
  rw [run_append]
  rfl

theorem length_reply (m : Machine) (u : Supply) (ops : List Operation) :
    (run m u ops).reply.length = ops.length := by
  induction ops generalizing m u with
  | nil => rfl
  | cons op ops ih => simp only [run, List.length_cons, ih]

/-- The reply to an operation in the course of a history. -/
theorem getElem?_reply_run (m : Machine) (u : Supply) (pre : List Operation) (op : Operation)
    (rest : List Operation) :
    (run m u (pre ++ op :: rest)).reply[pre.length]? =
      some (op.apply (run m u pre).machine (run m u pre).supply).reply := by
  have hlen := length_reply m u pre
  rw [run_append, List.getElem?_append_right (Nat.le_of_eq hlen), hlen, Nat.sub_self]
  rfl

/-! ## What operations leave alone -/

/-- An operation that may fail leaves the machine as it was or as it has made it. -/
theorem settle_machine {P : Machine → Prop} {m : Machine} {u : Supply} {r : Except Error Machine}
    (hm : P m) (hr : ∀ m', r = .ok m' → P m') : P (settle m u r).machine := by
  cases r with
  | error e => exact hm
  | ok m' => exact hr m' rfl

theorem reply_ne_stepped (m : Machine) (u : Supply) {op : Operation} (h : op ≠ .step) (s : Step) :
    (op.apply m u).reply ≠ .stepped s := by
  cases op with
  | step => exact absurd rfl h
  | load image => cases hr : m.load image <;> simp [apply, settle, Reply.ofExcept, hr]
  | loadFrom source => cases hr : m.loadFrom source <;> simp [apply, settle, Reply.ofExcept, hr]
  | press key => cases hr : m.press key <;> simp [apply, settle, Reply.ofExcept, hr]
  | release key => cases hr : m.release key <;> simp [apply, settle, Reply.ofExcept, hr]
  | _ => exact fun h => nomatch h

end Operation

/-- The machines agree on what neither the timers nor a caller can change: the registers, the
counter, the call stack, the screen, and the way sprites wrap. -/
structure Machine.SameCore (m m' : Machine) : Prop where
  v : m'.state.v = m.state.v
  index : m'.state.index = m.state.index
  pc : m'.state.pc = m.state.pc
  calls : m'.state.calls = m.state.calls
  frame : m'.state.frame = m.state.frame
  wrap : m'.wrap = m.wrap

theorem Machine.SameCore.refl (m : Machine) : m.SameCore m := ⟨rfl, rfl, rfl, rfl, rfl, rfl⟩

/-- The machine with a program in memory. -/
def Machine.loaded (m : Machine) (image : List UInt8) : Machine :=
  { m with
    state := { m.state with memory := m.state.memory.store 0x200 image }
    programSize := image.length }

/-- The machine with a key down or up. -/
def Machine.keyed (m : Machine) (key : Fin 16) (down : Bool) : Machine :=
  { m with state := { m.state with keys := m.state.keys.set key down } }

theorem Machine.load_eq (m : Machine) (image : List UInt8) :
    m.load image =
      if image.length > 3584 then .error (.imageTooLarge image.length 3584)
      else .ok (m.loaded image) := by
  by_cases h : image.length > 3584
  · simp only [load, Memory.maxProgram, h, if_true]
  · have hw : m.state.memory.write Memory.programStart image =
        .ok (m.state.memory.store 0x200 image) := by
      rw [Memory.write_eq, Memory.programStart, if_neg (by omega)]
    simp only [load, Memory.maxProgram, h, if_false, hw]
    rfl

theorem Machine.setKey_eq (m : Machine) (key : UInt8) (down : Bool) :
    m.setKey key down =
      if h : key.toNat < 16 then .ok (m.keyed ⟨key.toNat, h⟩ down)
      else .error (.noSuchKey key) := rfl

theorem Machine.sameCore_load {m m' : Machine} {image : List UInt8} (h : m.load image = .ok m') :
    m.SameCore m' := by
  rw [load_eq] at h
  split at h
  · cases h
  · cases h
    exact ⟨rfl, rfl, rfl, rfl, rfl, rfl⟩

theorem Machine.sameCore_setKey {m m' : Machine} {key : UInt8} {down : Bool}
    (h : m.setKey key down = .ok m') : m.SameCore m' := by
  unfold setKey at h
  split at h
  · cases h
    exact ⟨rfl, rfl, rfl, rfl, rfl, rfl⟩
  · cases h

/-- **Only a step and a reset** touch the registers, the counter, the call stack or the screen. -/
theorem Operation.sameCore_apply (m : Machine) (u : Supply) {op : Operation} (hs : op ≠ .step)
    (hr : op ≠ .reset) : m.SameCore (op.apply m u).machine := by
  cases op with
  | step => exact absurd rfl hs
  | reset => exact absurd rfl hr
  | load image => exact settle_machine (.refl m) fun _ => Machine.sameCore_load
  | loadFrom source =>
    refine settle_machine (.refl m) fun m' h => ?_
    simp only [Machine.loadFrom] at h
    cases hi : source.readAll with
    | error e => rw [hi] at h; cases h
    | ok image => rw [hi] at h; exact Machine.sameCore_load h
  | press key => exact settle_machine (.refl m) fun _ => Machine.sameCore_setKey
  | release key => exact settle_machine (.refl m) fun _ => Machine.sameCore_setKey
  | tick =>
    simp only [apply, Machine.tick]
    split <;> exact ⟨rfl, rfl, rfl, rfl, rfl, rfl⟩
  | takeFrame =>
    simp only [apply, Machine.takeFrame]
    split <;> exact ⟨rfl, rfl, rfl, rfl, rfl, rfl⟩
  | _ => exact ⟨rfl, rfl, rfl, rfl, rfl, rfl⟩

/-! ## Reachable machines -/

/-- Some history of operations leads from a new machine to this one, whatever random bytes each of
them is given. -/
inductive Reachable : Machine → Prop
  | new (wrap : Wrap) : Reachable (.new wrap)
  | apply {m : Machine} (h : Reachable m) (u : Supply) (op : Operation) :
      Reachable (op.apply m u).machine

theorem Reachable.run {m : Machine} (h : Reachable m) (u : Supply) (ops : List Operation) :
    Reachable (Operation.run m u ops).machine := by
  induction ops generalizing m u with
  | nil => exact h
  | cons op ops ih => exact ih (h.apply u op) _

/-! ## Two machines side by side -/

/-- Something went alike on two machines: the replies are related by `Q` and the machines left
behind by `R`, and the same random bytes were taken. -/
structure After.Alike {α : Type} (Q : α → α → Prop) (R : Machine → Machine → Prop)
    (a b : After α) : Prop where
  reply : Q a.reply b.reply
  machine : R a.machine b.machine
  supply : b.supply = a.supply

/-- **A step goes alike** on machines that are both paused or not, are at the same word, and refuse
the instruction there alike, if carrying it out keeps them related. -/
theorem Machine.step_alike {R : Machine → Machine → Prop} {m m' : Machine} {u : Supply}
    (h : R m m') (hp : m'.paused = m.paused) (hpc : m'.state.pc = m.state.pc)
    (hw : m'.state.word = m.state.word)
    (ho : ∀ i : Instruction, i.obstacle m'.state = i.obstacle m.state)
    (ht : ∀ i : Instruction, i.target m'.state = i.target m.state)
    (hR : ∀ i, m.state.At i → m.step u = m.executed u i →
      R (m.executed u i).machine (m'.executed u i).machine) :
    After.Alike Eq R (m.step u) (m'.step u) := by
  have hat : ∀ {i}, m.state.At i → m'.state.At i := fun ⟨h1, h2⟩ =>
    ⟨hpc ▸ h1, hw.trans h2⟩
  have hs := m.step_outcome u
  generalize hms : m.step u = a at hs hR ⊢
  cases hs with
  | paused hpm =>
    rw [step_of_paused (hp.trans hpm)]
    exact ⟨rfl, h, rfl⟩
  | offMemory hpm hlt =>
    rw [step_of_offMemory (hp.trans hpm) (hpc ▸ hlt), hpc]
    exact ⟨rfl, h, rfl⟩
  | unknown hpm hlt hn =>
    rw [step_of_unknown (hp.trans hpm) (hpc ▸ hlt) (hw ▸ hn), hpc, hw]
    exact ⟨rfl, h, rfl⟩
  | refused hpm hi hr =>
    rw [step_of_at (hp.trans hpm) (hat hi), ho, hr]
    exact ⟨rfl, h, rfl⟩
  | @overrun i hpm hi hn hlt =>
    rw [step_of_at (hp.trans hpm) (hat hi), ho, hn, ht]
    simp only [if_neg (Nat.not_lt_of_le hlt)]
    exact ⟨rfl, h, rfl⟩
  | @executed i hpm hi hn hlt =>
    rw [step_of_at (hp.trans hpm) (hat hi), ho, hn, ht]
    simp only [if_pos hlt]
    exact ⟨by simp only [Machine.executed, hpc], hR i hi rfl, rfl⟩

/-- Two attempts at something ended alike: with the same error, or in related machines. -/
inductive AlikeAttempts (R : Machine → Machine → Prop) :
    Except Error Machine → Except Error Machine → Prop
  | error (e : Error) : AlikeAttempts R (.error e) (.error e)
  | ok {m m' : Machine} (h : R m m') : AlikeAttempts R (.ok m) (.ok m')

theorem Machine.load_alike {R : Machine → Machine → Prop} {m m' : Machine} (image : List UInt8)
    (h : R (m.loaded image) (m'.loaded image)) :
    AlikeAttempts R (m.load image) (m'.load image) := by
  simp only [load_eq]
  split
  · exact .error _
  · exact .ok h

theorem Machine.loadFrom_alike {R : Machine → Machine → Prop} {m m' : Machine} (source : Reader)
    (h : ∀ image, R (m.loaded image) (m'.loaded image)) :
    AlikeAttempts R (m.loadFrom source) (m'.loadFrom source) := by
  unfold loadFrom
  cases source.readAll with
  | error e => exact .error _
  | ok image => exact load_alike image (h image)

theorem Machine.setKey_alike {R : Machine → Machine → Prop} {m m' : Machine} (key : UInt8)
    (down : Bool) (h : ∀ k, R (m.keyed k down) (m'.keyed k down)) :
    AlikeAttempts R (m.setKey key down) (m'.setKey key down) := by
  simp only [setKey_eq]
  split
  · exact .ok (h _)
  · exact .error _

theorem Operation.settle_alike {Q : Reply → Reply → Prop} {R : Machine → Machine → Prop}
    (hQ : ∀ r, Q r r) {m m' : Machine} (h : R m m') (u : Supply) {r r' : Except Error Machine}
    (hr : AlikeAttempts R r r') : After.Alike Q R (settle m u r) (settle m' u r') := by
  cases hr with
  | error e => exact ⟨hQ _, h, rfl⟩
  | ok hn => exact ⟨hQ _, hn, rfl⟩

/-- **A history goes alike** on related machines if every operation does. -/
theorem Operation.run_alike {Q : Reply → Reply → Prop} {R : Machine → Machine → Prop}
    (hR : ∀ (m m' : Machine) (u : Supply) (op : Operation), R m m' →
      After.Alike Q R (op.apply m u) (op.apply m' u))
    {m m' : Machine} (h : R m m') (u : Supply) (ops : List Operation) :
    After.Alike (List.Forall₂ Q) R (run m u ops) (run m' u ops) := by
  induction ops generalizing m m' u with
  | nil => exact ⟨.nil, h, rfl⟩
  | cons op ops ih =>
    have ha := hR m m' u op h
    have hb := ih ha.machine (op.apply m u).supply
    simp only [run, ha.supply]
    exact ⟨.cons ha.reply hb.reply, hb.machine, hb.supply⟩

end Chip8VM
