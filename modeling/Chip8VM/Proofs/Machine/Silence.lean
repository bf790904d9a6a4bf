import Chip8VM.Proofs.Machine.Run

/-!
# Operations that nobody hears

Some operations change only what the others do not look at. Two histories that are the same once
such operations are deleted go alike: what the others answer is the same, and the machines stay
related. `Silence` states what this takes of a kind of operations and of a relation between
machines, one operation at a time, and `Silence.run` is what follows for whole histories.
-/

set_option autoImplicit false

namespace Chip8VM

/-- The histories are the same but for silent operations. -/
inductive SameBut (silent : Operation → Bool) : List Operation → List Operation → Prop
  | nil : SameBut silent [] []
  | left {op : Operation} {ops₁ ops₂ : List Operation} : silent op = true →
      SameBut silent ops₁ ops₂ → SameBut silent (op :: ops₁) ops₂
  | right {op : Operation} {ops₁ ops₂ : List Operation} : silent op = true →
      SameBut silent ops₁ ops₂ → SameBut silent ops₁ (op :: ops₂)
  | both {op : Operation} {ops₁ ops₂ : List Operation} : silent op = false →
      SameBut silent ops₁ ops₂ → SameBut silent (op :: ops₁) (op :: ops₂)

/-- What a history leaves when its silent operations are deleted. -/
def Operation.loud (silent : Operation → Bool) (ops : List Operation) : List Operation :=
  ops.filter (!silent ·)

/-- The replies to those operations of a history that are not silent. -/
def Operation.heard (silent : Operation → Bool) (ops : List Operation) (replies : List Reply) :
    List Reply :=
  ((ops.zip replies).filter fun entry => !silent entry.1).map (·.2)

namespace SameBut

variable {silent : Operation → Bool} {ops₁ ops₂ : List Operation}

theorem append_left {pre : List Operation} (hpre : ∀ op ∈ pre, silent op = true)
    (h : SameBut silent ops₁ ops₂) : SameBut silent ops₁ (pre ++ ops₂) := by
  induction pre with
  | nil => exact h
  | cons op pre ih =>
    exact .right (hpre op List.mem_cons_self) (ih fun op' hop => hpre op' (.tail _ hop))

theorem of_loud (h : Operation.loud silent ops₁ = Operation.loud silent ops₂) :
    SameBut silent ops₁ ops₂ := by
  unfold Operation.loud at h
  induction ops₁ generalizing ops₂ with
  | nil =>
    have hs : ∀ op ∈ ops₂, silent op = true := fun op hop => by
      have hn := List.filter_eq_nil_iff.1 h.symm op hop
      simpa using hn
    rw [← List.append_nil ops₂]
    exact append_left hs .nil
  | cons op ops₁ ih =>
    cases hop : silent op with
    | true =>
      rw [List.filter_cons_of_neg (by simp [hop])] at h
      exact .left hop (ih h)
    | false =>
      rw [List.filter_cons_of_pos (by simp [hop])] at h
      obtain ⟨pre, rest, rfl, hpre, -, hrest⟩ := List.filter_eq_cons_iff.1 h.symm
      refine append_left (fun op' hop' => ?_) (.both hop (ih hrest.symm))
      simpa using hpre op' hop'

end SameBut

theorem Operation.heard_cons (silent : Operation → Bool) (op : Operation) (ops : List Operation)
    (r : Reply) (replies : List Reply) :
    heard silent (op :: ops) (r :: replies) =
      if silent op then heard silent ops replies else r :: heard silent ops replies := by
  unfold heard
  rw [List.zip_cons_cons]
  cases hop : silent op <;> simp [hop]

/-- **What one operation must do** for its kind to be silent on related machines: carried out on
either of them, a silent operation keeps them related and takes no random byte; any other operation
goes alike on both, provided that it is fair on the first. -/
structure Silence (silent : Operation → Bool) (fair : Operation → Reply → Prop)
    (R : Machine → Machine → Prop) : Prop where
  left : ∀ {m m' : Machine} (u : Supply) {op : Operation}, silent op = true → R m m' →
    R (op.apply m u).machine m'
  right : ∀ {m m' : Machine} (u : Supply) {op : Operation}, silent op = true → R m m' →
    R m (op.apply m' u).machine
  supply : ∀ (m : Machine) (u : Supply) {op : Operation}, silent op = true →
    (op.apply m u).supply = u
  alike : ∀ {m m' : Machine} (u : Supply) {op : Operation}, silent op = false →
    fair op (op.apply m u).reply → R m m' → After.Alike Eq R (op.apply m u) (op.apply m' u)

/-- **Silent operations are not heard**: histories that are the same without them get the same
replies to the other operations, and leave related machines and the same random bytes. -/
theorem Silence.run {silent : Operation → Bool} {fair : Operation → Reply → Prop}
    {R : Machine → Machine → Prop} (hR : Silence silent fair R) {m m' : Machine} (h : R m m')
    (u : Supply) {ops₁ ops₂ : List Operation} (hops : SameBut silent ops₁ ops₂)
    (hfair : ∀ entry ∈ ops₁.zip (Operation.run m u ops₁).reply, fair entry.1 entry.2) :
    Operation.heard silent ops₁ (Operation.run m u ops₁).reply =
        Operation.heard silent ops₂ (Operation.run m' u ops₂).reply ∧
      R (Operation.run m u ops₁).machine (Operation.run m' u ops₂).machine ∧
      (Operation.run m u ops₁).supply = (Operation.run m' u ops₂).supply := by
  induction hops generalizing m m' u with
  | nil => exact ⟨rfl, h, rfl⟩
  | @left op ops₁ ops₂ hop _ ih =>
    have ih := ih (hR.left u hop h) u
    simp only [Operation.run, hR.supply m u hop, Operation.heard_cons, hop, if_true,
      List.zip_cons_cons] at hfair ⊢
    exact ih fun entry he => hfair entry (.tail _ he)
  | @right op ops₁ ops₂ hop _ ih =>
    have ih := ih (hR.right u hop h) u
    simp only [Operation.run, hR.supply m' u hop, Operation.heard_cons, hop, if_true]
    exact ih hfair
  | @both op ops₁ ops₂ hop _ ih =>
    simp only [Operation.run, List.zip_cons_cons] at hfair
    have ha := hR.alike u hop (hfair _ List.mem_cons_self) h
    have ih := ih ha.machine (op.apply m u).supply fun entry he => hfair entry (.tail _ he)
    simp only [Operation.run, Operation.heard_cons, hop, Bool.false_eq_true, if_false, ha.supply,
      ha.reply]
    exact ⟨congrArg _ ih.1, ih.2⟩

end Chip8VM
