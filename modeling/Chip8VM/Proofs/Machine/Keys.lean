import Chip8VM.Proofs.Machine.Moments
import Chip8VM.Proofs.Machine.Permanence

/-!
# Keys, and waiting for one

Only `press`, `release` and a reset touch the keypad, so whether a key is down can be told from the
last of them that concerns it (`Operation.isKeyDown_run`). An `FX0A` that finds no key down when a
step comes to it leaves everything as it is, and other operations than a reset and a load leave the
program alone: the machine waits (`Operation.waiting_run`). The first step that finds keys down
takes the greatest of them (`Machine.step_of_keyDown`).
-/

set_option autoImplicit false

namespace Chip8VM

/-! ## The keypad -/

namespace Keypad

/-- The key that is reported is down, and no greater one is. -/
theorem greatest?_spec {p : Keypad} {k : Fin 16} (h : p.greatest? = some k) :
    p.isDown k.val = true ∧ ∀ key, p.isDown key = true → key ≤ k.val := by
  have hsorted : (List.finRange 16).reverse.Pairwise fun i j => j ≤ i := by decide
  obtain ⟨hdown, before, behind, hsplit, hup⟩ := List.find?_eq_some_iff_append.1 h
  rw [hsplit, List.pairwise_append, List.pairwise_cons] at hsorted
  obtain ⟨-, ⟨hbehind, -⟩, -⟩ := hsorted
  constructor
  · rw [isDown, dif_pos k.isLt]
    exact hdown
  · intro key hkey
    have hlt : key < 16 := by
      by_contra hge
      rw [isDown_of_ge p (Nat.le_of_not_lt hge)] at hkey
      cases hkey
    rw [isDown, dif_pos hlt] at hkey
    -- The keys before it are up, so this one stands behind it in the list or is it.
    have hmem : (⟨key, hlt⟩ : Fin 16) ∈ before ++ k :: behind := by
      rw [← hsplit, List.mem_reverse]
      exact List.mem_finRange _
    rcases List.mem_append.1 hmem with hbefore | hrest
    · have hnot := hup _ hbefore
      simp only [Fin.getElem_fin, hkey, Bool.not_true, Bool.false_eq_true] at hnot
    · rcases List.mem_cons.1 hrest with heq | hbehind'
      · rw [← heq]
      · exact hbehind _ hbehind'

end Keypad

namespace Operation

/-- Where an operation moves a key: down, up, or not at all. -/
def move? (key : UInt8) : Operation → Option Bool
  | .press k => if k = key then some true else none
  | .release k => if k = key then some false else none
  | _ => none

/-- The last move of a key since the last reset. -/
def lastMove? (key : UInt8) (ops : List Operation) : Option Bool :=
  (ops.rtakeWhile (· ≠ .reset)).reverse.findSome? (move? key)

theorem lastMove?_concat (key : UInt8) (ops : List Operation) (op : Operation) :
    lastMove? key (ops ++ [op]) =
      if op = .reset then none else (op.move? key).or (lastMove? key ops) := by
  rw [lastMove?, List.rtakeWhile_concat]
  by_cases hr : op = .reset
  · simp [hr]
  · simp only [hr, ne_eq, not_false_eq_true, decide_true, if_true, if_false,
      List.reverse_concat, List.findSome?_cons]
    cases op.move? key <;> rfl

/-! ## One operation -/

/-- No other operation touches the keypad. -/
theorem keys_apply (m : Machine) (u : Supply) {op : Operation} (hr : op ≠ .reset)
    (hop : ∀ key, op.move? key = none) : (op.apply m u).machine.state.keys = m.state.keys := by
  by_cases hs : op = .step
  · subst hs
    have ho := m.step_outcome u
    simp only [apply]
    generalize m.step u = a at ho ⊢
    cases ho with
    | @executed i => exact i.effect_keys m.wrap u.peek m.state
    | _ => rfl
  · have hc := change m u hs
    generalize (op.apply m u).machine = m' at hc ⊢
    cases hc with
    | reset => exact absurd rfl hr
    | press key | release key =>
      have hmove := hop key
      simp only [move?, if_true, reduceCtorEq] at hmove
    | _ => rfl

theorem isKeyDown_setKey (m : Machine) (u : Supply) (k : UInt8) (down : Bool) {key : UInt8}
    (hkey : key.toNat < 16) :
    (settle m u (m.setKey k down)).machine.isKeyDown key =
      if k = key then down else m.isKeyDown key := by
  rw [Machine.setKey_eq]
  split
  · simp only [settle, Except.toOption, Option.getD_some, Machine.keyed, Machine.isKeyDown,
      Keypad.isDown_set, UInt8.toNat_inj, eq_comm]
  · next hk =>
    rw [if_neg]
    · rfl
    · rintro rfl
      exact hk hkey

theorem isKeyDown_apply (m : Machine) (u : Supply) (op : Operation) {key : UInt8}
    (hkey : key.toNat < 16) :
    (op.apply m u).machine.isKeyDown key =
      if op = .reset then false else (op.move? key).getD (m.isKeyDown key) := by
  cases op with
  | reset => exact Keypad.isDown_idle key.toNat
  | press k =>
    refine (isKeyDown_setKey m u k true hkey).trans ?_
    rw [if_neg (show press k ≠ .reset from nofun), move?]
    split <;> rfl
  | release k =>
    refine (isKeyDown_setKey m u k false hkey).trans ?_
    rw [if_neg (show release k ≠ .reset from nofun), move?]
    split <;> rfl
  | _ =>
    rw [if_neg nofun]
    exact congrArg (Keypad.isDown · key.toNat) (keys_apply m u nofun fun _ => rfl)

/-! ## A history -/

/-- **A key is down** while its last move was. -/
theorem isKeyDown_run {m : Machine} (hm : ∀ key, m.isKeyDown key = false) (u : Supply)
    (ops : List Operation) {key : UInt8} (hkey : key.toNat < 16) :
    (run m u ops).machine.isKeyDown key = (lastMove? key ops).getD false := by
  induction ops using List.reverseRecOn with
  | nil => exact hm key
  | append_singleton ops op ih =>
    rw [run_concat, lastMove?_concat]
    show (op.apply _ _).machine.isKeyDown key = _
    rw [isKeyDown_apply _ _ op hkey, ih]
    by_cases hr : op = .reset
    · rw [if_pos hr, if_pos hr]
      rfl
    · rw [if_neg hr, if_neg hr]
      cases op.move? key <;> rfl

/-- While keys only go down, those are down that were and those that were pressed. -/
theorem isKeyDown_run_of_pressing (m : Machine) (u : Supply) {ops : List Operation}
    (hops : ∀ op ∈ ops, op ≠ .reset ∧ ∀ k, op ≠ .release k) {key : UInt8} (hkey : key.toNat < 16) :
    (run m u ops).machine.isKeyDown key = true ↔ m.isKeyDown key = true ∨ .press key ∈ ops := by
  induction ops generalizing m u with
  | nil => simp [run]
  | cons op ops ih =>
    rw [List.forall_mem_cons] at hops
    obtain ⟨⟨hr, hup⟩, hrest⟩ := hops
    rw [run, ih _ _ hrest, isKeyDown_apply m u op hkey, if_neg hr, List.mem_cons, ← or_assoc]
    refine or_congr_left ?_
    cases op with
    | press k =>
      by_cases hk : k = key
      · simp [move?, hk]
      · simp [move?, hk, Ne.symm hk]
    | release k => exact absurd rfl (hup k)
    | _ => simp [move?]

end Operation

/-! ## Waiting -/

namespace Machine

variable {m : Machine} {x : Register}

/-- A step of a machine at `FX0A` that is paused or has no key down. -/
theorem step_of_keysUp (hat : m.state.At (.awaitKey x))
    (h : m.paused = true ∨ ∀ key, m.isKeyDown key = false) (u : Supply) :
    m.step u = ⟨if m.paused then .paused else .awaitingKey, m, u⟩ := by
  cases hp : m.paused with
  | true => exact step_of_paused hp
  | false =>
    have hup : ∀ key, m.isKeyDown key = false := by
      rcases h with hpaused | hup
      · rw [hp] at hpaused
        cases hpaused
      · exact hup
    have hnone : m.state.keys.greatest? = none := by
      rw [Keypad.greatest?_eq_none_iff]
      intro key
      by_cases hlt : key < 16
      · have hkey := hup (UInt8.ofNat key)
        rwa [isKeyDown, UInt8.toNat_ofNat', Nat.mod_eq_of_lt (by omega)] at hkey
      · exact Keypad.isDown_of_ge _ (Nat.le_of_not_lt hlt)
    rw [step_of_at hp hat, Instruction.obstacle, if_pos hnone]
    rfl

/-- A step of a machine at `FX0A` that finds keys down stores the greatest of them. -/
theorem step_of_keyDown (hat : m.state.At (.awaitKey x)) (hp : m.paused = false)
    (hdown : ∃ key, m.isKeyDown key = true) (u : Supply) :
    ∃ key, m.isKeyDown key = true ∧ (∀ k, m.isKeyDown k = true → k ≤ key) ∧
      m.step u = ⟨.executed ⟨.ofByte 0xF x 0x0A, m.state.pc⟩,
        m.commit { m.state.setV x key with pc := m.state.pc + 2 }
          ⟨.ofByte 0xF x 0x0A, m.state.pc⟩, u⟩ := by
  obtain ⟨k, hk⟩ : ∃ k, m.state.keys.greatest? = some k := by
    rw [← Option.ne_none_iff_exists']
    intro hnone
    obtain ⟨key, hkey⟩ := hdown
    have hup := (Keypad.greatest?_eq_none_iff _).1 hnone key.toNat
    rw [isKeyDown, hup] at hkey
    cases hkey
  obtain ⟨hkdown, hmax⟩ := Keypad.greatest?_spec hk
  have hnat : (UInt8.ofNat k.val).toNat = k.val := by
    rw [UInt8.toNat_ofNat']
    omega
  have hpc := hat.1
  refine ⟨UInt8.ofNat k.val, ?_, ?_, ?_⟩
  · rw [isKeyDown, hnat]
    exact hkdown
  · intro key hkey
    rw [UInt8.le_iff_toNat_le, hnat]
    exact hmax key.toNat hkey
  · have hobstacle : (Instruction.awaitKey x).obstacle m.state = none := by
      rw [Instruction.obstacle, hk, if_neg (Option.some_ne_none k)]
    have htarget : (Instruction.awaitKey x).target m.state = m.state.pc.toNat + 2 := rfl
    rw [step_of_at hp hat, hobstacle, htarget]
    simp only [show m.state.pc.toNat + 2 < 65536 by omega, if_true]
    simp only [executed, Instruction.result, Instruction.effect, hk, htarget,
      m.state.ofNat_behind, Option.getD_some]
    rfl

end Machine

namespace Operation

variable {m : Machine} {x : Register} (hat : m.state.At (.awaitKey x))
include hat

theorem waiting_apply (u : Supply) {op : Operation} (hop : op.replacesProgram = false)
    (hup : op = .step → m.paused = true ∨ ∀ key, m.isKeyDown key = false) :
    m.SameProgram (op.apply m u).machine ∧
      (op = .step →
        (op.apply m u).reply = .stepped (if m.paused then .paused else .awaitingKey)) := by
  by_cases hs : op = .step
  · subst hs
    have hwait := Machine.step_of_keysUp hat (hup rfl) u
    simp only [apply, hwait]
    exact ⟨.refl m, fun _ => trivial⟩
  · exact ⟨sameProgram_apply_of_ne m u hs hop, fun hstep => absurd hstep hs⟩

/-- **A machine at `FX0A` waits**: it stays as it is through every history that replaces no program
and takes no step while a key is down. -/
theorem waiting_run (u : Supply) {ops : List Operation}
    (hops : ∀ op ∈ ops, op.replacesProgram = false)
    (hup : ∀ t ∈ moments m u ops, t.operation = .step →
      t.machine.paused = true ∨ ∀ key, t.machine.isKeyDown key = false) :
    m.SameProgram (run m u ops).machine ∧
      ∀ t ∈ moments m u ops, m.SameProgram t.machine ∧ (t.operation = .step →
        t.reply = .stepped (if t.machine.paused then .paused else .awaitingKey)) := by
  induction ops generalizing m u with
  | nil => exact ⟨.refl m, fun t ht => absurd ht List.not_mem_nil⟩
  | cons op ops ih =>
    simp only [moments, List.forall_mem_cons] at hops hup ⊢
    obtain ⟨hfirst, hrest⟩ := hup
    obtain ⟨hsame, hreply⟩ := waiting_apply hat u hops.1 hfirst
    obtain ⟨hend, hmoments⟩ := ih (hat.of_same hsame.pc hsame.memory) _ hops.2 hrest
    refine ⟨hsame.trans hend, ⟨.refl m, hreply⟩, ?_⟩
    intro t ht
    obtain ⟨hsame', hreply'⟩ := hmoments t ht
    exact ⟨hsame.trans hsame', hreply'⟩

end Operation

/-- **Keys over a history.** In every history of a new machine, a key is down exactly if it is one
of the sixteen and its last move since the last reset was down. Moving any other key fails and
changes nothing, and no operation but a reset and the moves touches the keypad. So if the history
has come to an `FX0A`, the machine waits there: whatever is done with it, as long as the program is
not replaced and no step is taken while a key is down, every step reports that it waits, or that the
machine is paused, and the registers, the counter, the call stack, the screen and memory stay as
they are. And then the first step that finds keys down while the machine is not paused executes the
instruction: it puts the greatest of the keys into `VX`, leaves the other registers as they are, and
goes on. -/
theorem keys_over_history (wrap : Wrap) (u : Supply) (ops : List Operation) :
    let m := (Operation.run (.new wrap) u ops).machine
    (∀ key, m.isKeyDown key = true ↔
      key.toNat < 16 ∧ Operation.lastMove? key ops = some true) ∧
    (∀ (u' : Supply) (key : UInt8), 16 ≤ key.toNat →
      (Operation.press key).apply m u' = ⟨.failed (.noSuchKey key), m, u'⟩ ∧
        (Operation.release key).apply m u' = ⟨.failed (.noSuchKey key), m, u'⟩) ∧
    (∀ (u' : Supply) (op : Operation), op ≠ .reset → (∀ key, op.move? key = none) →
      (op.apply m u').machine.state.keys = m.state.keys) ∧
    ∀ (x : Register) (u' : Supply) (later : List Operation), m.state.At (.awaitKey x) →
      (∀ op ∈ later, op.replacesProgram = false) →
      (∀ t ∈ Operation.moments m u' later, t.operation = .step →
        t.machine.paused = true ∨ ∀ key, t.machine.isKeyDown key = false) →
      let m' := (Operation.run m u' later).machine
      (∀ t ∈ Operation.moments m u' later, m.SameProgram t.machine ∧ (t.operation = .step →
        t.reply = .stepped (if t.machine.paused then .paused else .awaitingKey))) ∧
      m.SameProgram m' ∧
      ∀ u'' : Supply, m'.paused = false → (∃ key, m'.isKeyDown key = true) →
        ∃ key, m'.isKeyDown key = true ∧ (∀ k, m'.isKeyDown k = true → k ≤ key) ∧
          m'.step u'' = ⟨.executed ⟨.ofByte 0xF x 0x0A, m.state.pc⟩,
            m'.commit { m'.state.setV x key with pc := m.state.pc + 2 }
              ⟨.ofByte 0xF x 0x0A, m.state.pc⟩, u''⟩ ∧
          (m'.step u'').machine.state.v.get x = key ∧
          (∀ r, r ≠ x → (m'.step u'').machine.state.v.get r = m.state.v.get r) ∧
          (m'.step u'').machine.state.pc = m.state.pc + 2 := by
  intro m
  refine ⟨fun key => ?_, fun u' key hkey => ?_, fun u' op hr hop => ?_, ?_⟩
  · by_cases hkey : key.toNat < 16
    · have hnew : ∀ key, (Machine.new wrap).isKeyDown key = false :=
        fun key => Keypad.isDown_idle key.toNat
      rw [Operation.isKeyDown_run hnew u ops hkey]
      cases Operation.lastMove? key ops <;> simp [hkey]
    · rw [Machine.isKeyDown, Keypad.isDown_of_ge _ (Nat.le_of_not_lt hkey)]
      simp [hkey]
  · have hnone : ∀ down, m.setKey key down = .error (.noSuchKey key) := by
      intro down
      rw [Machine.setKey_eq, dif_neg (Nat.not_lt_of_le hkey)]
    simp only [Operation.apply, Machine.press, Machine.release, hnone]
    exact ⟨rfl, rfl⟩
  · exact Operation.keys_apply m u' hr hop
  · intro x u' later hat hlater hup m'
    obtain ⟨hend, hmoments⟩ := Operation.waiting_run hat u' hlater hup
    refine ⟨hmoments, hend, fun u'' hp hdown => ?_⟩
    rw [← hend.pc, ← hend.v]
    obtain ⟨key, hkey, hmax, hstep⟩ :=
      Machine.step_of_keyDown (hat.of_same hend.pc hend.memory) hp hdown u''
    have hnext := congrArg (fun a => a.machine.state) hstep
    exact ⟨key, hkey, hmax, hstep, State.reads_of_eq_setV hnext⟩

/-- A program that waits for a key. -/
def Machine.waiting : Machine :=
  (Operation.run (.new .flat) (.ofSeed 1) [.load [0xF3, 0x0A]]).machine

/-- A key that is let up before the next step, and two that go down while the machine is paused. -/
def Machine.visits : List Operation :=
  [.step, .press 3, .release 3, .tick, .step, .pause, .press 5, .press 0xB, .step, .resume]

/-- The wait is over with the greater of the two keys. -/
theorem keys_over_history_with_chord :
    let m' := (Operation.run Machine.waiting (.ofSeed 1) Machine.visits).machine
    (Machine.waiting.state.At (.awaitKey 3) ∧
      (∀ op ∈ Machine.visits, op.replacesProgram = false) ∧
      (∀ t ∈ Operation.moments Machine.waiting (.ofSeed 1) Machine.visits, t.operation = .step →
        t.machine.paused = true ∨ ∀ key, t.machine.isKeyDown key = false) ∧
      m'.paused = false ∧ m'.isKeyDown 0xB = true ∧ 16 ≤ UInt8.toNat 16 ∧
      Operation.tick ≠ .reset ∧ ∀ key, Operation.tick.move? key = none) ∧
    ∃ key, 0xB ≤ key ∧ m'.step (.ofSeed 1) =
      ⟨.executed ⟨.ofByte 0xF 3 0x0A, Machine.waiting.state.pc⟩,
        m'.commit { m'.state.setV 3 key with pc := Machine.waiting.state.pc + 2 }
          ⟨.ofByte 0xF 3 0x0A, Machine.waiting.state.pc⟩, .ofSeed 1⟩ ∧
      (m'.step (.ofSeed 1)).machine.state.v.get 3 = key := by
  have hat : Machine.waiting.state.At (.awaitKey 3) := ⟨by decide +kernel, by decide +kernel⟩
  have hprogram : ∀ op ∈ Machine.visits, op.replacesProgram = false := by decide
  have hidle : ∀ t ∈ Operation.moments Machine.waiting (.ofSeed 1) Machine.visits,
      t.operation = .step → t.machine.paused = true ∨ t.machine.state.keys = .idle := by
    decide +kernel
  have hup : ∀ t ∈ Operation.moments Machine.waiting (.ofSeed 1) Machine.visits,
      t.operation = .step → t.machine.paused = true ∨ ∀ key, t.machine.isKeyDown key = false := by
    intro t ht hstep
    refine (hidle t ht hstep).imp_right fun hkeys key => ?_
    rw [Machine.isKeyDown, hkeys, Keypad.isDown_idle]
  have hend : (Operation.run Machine.waiting (.ofSeed 1) Machine.visits).machine.paused = false ∧
      (Operation.run Machine.waiting (.ofSeed 1) Machine.visits).machine.isKeyDown 0xB = true := by
    decide +kernel
  obtain ⟨-, -, -, hwait⟩ := keys_over_history .flat (.ofSeed 1) [.load [0xF3, 0x0A]]
  rw [← Machine.waiting] at hwait
  obtain ⟨-, -, hlast⟩ := hwait 3 (.ofSeed 1) Machine.visits hat hprogram hup
  generalize (Operation.run Machine.waiting (.ofSeed 1) Machine.visits).machine = m' at hend hlast ⊢
  obtain ⟨key, -, hmax, hstep, hput, -⟩ := hlast (.ofSeed 1) hend.1 ⟨0xB, hend.2⟩
  exact ⟨⟨hat, hprogram, hup, hend.1, hend.2, by decide, nofun, fun _ => rfl⟩, key,
    hmax 0xB hend.2, hstep, hput⟩

end Chip8VM
