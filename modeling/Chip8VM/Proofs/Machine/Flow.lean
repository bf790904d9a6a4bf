import Chip8VM.Proofs.Machine.Calls
import Chip8VM.Proofs.Machine.Keys

/-!
# Where a program goes on

`Instruction.GoesTo` says of each instruction where the program goes on from it, by rules that read
the state alone: at the address of a jump or a call, that address plus `V0`, behind the call that
returns, past the next instruction if the condition of a skip holds (`Instruction.Skips`), and
behind itself otherwise. The rules leave one address for an instruction that completes
(`Instruction.goesTo_iff`), and a step goes there. The skips come in pairs of which exactly one
skips (`Instruction.Opposite.skips_iff`).
-/

set_option autoImplicit false

namespace Chip8VM

/-! ## Keys by number -/

namespace Keypad

theorem isDown_iff {p : Keypad} {key : Nat} :
    p.isDown key = true ↔ ∃ k : Fin 16, key = k.val ∧ p.down.get k = true := by
  constructor
  · intro h
    have hlt : key < 16 := by
      by_contra hge
      rw [isDown_of_ge p (Nat.le_of_not_lt hge)] at h
      cases h
    rw [isDown, dif_pos hlt] at h
    exact ⟨⟨key, hlt⟩, rfl, h⟩
  · rintro ⟨k, rfl, hk⟩
    rw [isDown, dif_pos k.isLt]
    exact hk

theorem isUp_iff {p : Keypad} {key : Nat} :
    p.isDown key = false ↔ ∀ k : Fin 16, key = k.val → p.down.get k = false := by
  rw [← Bool.not_eq_true, isDown_iff]
  simp only [not_exists, not_and, Bool.not_eq_true]

end Keypad

namespace Instruction

/-! ## The rules -/

/-- The condition of a skip holds. -/
inductive Skips (s : State) : Instruction → Prop
  | eqByte {x : Register} {b : UInt8} : s.v.get x = b → Skips s (.skipEqByte x b)
  | neByte {x : Register} {b : UInt8} : s.v.get x ≠ b → Skips s (.skipNeByte x b)
  | eq {x y : Register} : s.v.get x = s.v.get y → Skips s (.skipEq x y)
  | ne {x y : Register} : s.v.get x ≠ s.v.get y → Skips s (.skipNe x y)
  /-- `VX` is the number of a key that is down. -/
  | down {x : Register} {k : Fin 16} : (s.v.get x).toNat = k.val → s.keys.down.get k = true →
      Skips s (.skipDown x)
  /-- `VX` is the number of no key that is down, be it the number of one that is up or of none. -/
  | up {x : Register} : (∀ k : Fin 16, (s.v.get x).toNat = k.val → s.keys.down.get k = false) →
      Skips s (.skipUp x)

/-- Whether an instruction goes elsewhere than past itself or past the next one. -/
def jumps : Instruction → Bool
  | .jump _ | .call _ | .jumpPlus _ | .ret => true
  | _ => false

/-- Where the program goes on from an instruction. -/
inductive GoesTo (s : State) : Instruction → Nat → Prop
  | jump {target : Fin 4096} : GoesTo s (.jump target) target
  | call {target : Fin 4096} : GoesTo s (.call target) target
  | jumpPlus {target : Fin 4096} : GoesTo s (.jumpPlus target) (target + (s.v.get 0).toNat)
  | ret {older : List Word} {top : Word} : s.calls.entries = older ++ [top] →
      GoesTo s .ret (top.toNat + 2)
  | skip {i : Instruction} : Skips s i → GoesTo s i (s.pc.toNat + 4)
  | next {i : Instruction} : i.jumps = false → ¬ Skips s i → GoesTo s i (s.pc.toNat + 2)

/-- Two skips with opposite conditions on the same operands. -/
inductive Opposite : Instruction → Instruction → Prop
  | byte (x : Register) (b : UInt8) : Opposite (.skipEqByte x b) (.skipNeByte x b)
  | registers (x y : Register) : Opposite (.skipEq x y) (.skipNe x y)
  | key (x : Register) : Opposite (.skipDown x) (.skipUp x)

/-! ## Skips -/

section

variable {s : State} {i j : Instruction}

theorem skips_iff : i.skips s = true ↔ Skips s i := by
  constructor
  · intro h
    cases i with
    | skipEqByte x b => exact .eqByte (beq_iff_eq.1 h)
    | skipNeByte x b => exact .neByte (bne_iff_ne.1 h)
    | skipEq x y => exact .eq (beq_iff_eq.1 h)
    | skipNe x y => exact .ne (bne_iff_ne.1 h)
    | skipDown x =>
      obtain ⟨k, hk, hdown⟩ := Keypad.isDown_iff.1 h
      exact .down hk hdown
    | skipUp x => exact .up (Keypad.isUp_iff.1 ((Bool.not_eq_true' _).mp h))
    | _ => cases h
  · intro h
    cases h with
    | eqByte h | eq h => exact beq_iff_eq.2 h
    | neByte h | ne h => exact bne_iff_ne.2 h
    | down hk hdown => exact Keypad.isDown_iff.2 ⟨_, hk, hdown⟩
    | up h => exact (Bool.not_eq_true' _).mpr (Keypad.isUp_iff.2 h)

/-- **Exactly one of two opposite skips skips.** -/
theorem Opposite.skips_iff (h : Opposite i j) : Skips s i ↔ ¬ Skips s j := by
  rw [← Instruction.skips_iff, ← Instruction.skips_iff]
  cases h with
  | byte x b => simp [skips]
  | registers x y => simp [skips]
  | key x => simp [skips]

/-- A number that no key has counts as that of a key that is up, whatever keys are down. -/
theorem skips_of_noKey {x : Register} (h : 16 ≤ (s.v.get x).toNat) :
    ¬ Skips s (.skipDown x) ∧ Skips s (.skipUp x) := by
  have hup : Skips s (.skipUp x) := .up fun k hk => absurd k.isLt (by omega)
  exact ⟨fun hdown => (Opposite.key x).skips_iff.1 hdown hup, hup⟩

/-- A skip goes past the next instruction if its condition holds and behind itself if not, where the
counter holds that, and changes nothing else. -/
theorem Opposite.execute_eq_ok_iff (h : Opposite i j) {k : Instruction} (hk : k = i ∨ k = j)
    (wrap : Wrap) (byte : UInt8) (t : State) :
    (Skips s k → (k.execute wrap byte s = .ok t ↔
        s.pc.toNat + 4 < 65536 ∧ t = { s with pc := s.pc + 4 })) ∧
      (¬ Skips s k → (k.execute wrap byte s = .ok t ↔
        s.pc.toNat + 2 < 65536 ∧ t = { s with pc := s.pc + 2 })) := by
  have hparts : k.obstacle s = none ∧ k.effect wrap byte s = s ∧
      k.target s = s.pc.toNat + if k.skips s then 4 else 2 := by
    cases h <;> rcases hk with rfl | rfl <;> exact ⟨rfl, rfl, rfl⟩
  obtain ⟨hnone, heffect, htarget⟩ := hparts
  have hpast : UInt16.ofNat (s.pc.toNat + 4) = s.pc + 4 := s.ofNat_past 4
  rw [← Instruction.skips_iff, Instruction.execute_eq_ok_iff, result, heffect, htarget,
    and_iff_right hnone]
  constructor
  · intro hskip
    rw [if_pos hskip, hpast]
  · intro hskip
    rw [if_neg hskip, s.ofNat_behind]

end

/-! ## One address -/

section

variable {s : State} {i : Instruction}

theorem jumps_of_skips (h : Skips s i) : i.jumps = false := by
  cases h <;> rfl

theorem target_of_not_jumps (h : i.jumps = false) :
    i.target s = s.pc.toNat + if i.skips s then 4 else 2 := by
  cases i with
  | jump | call | jumpPlus | ret => cases h
  | _ => rfl

theorem target_of_goesTo {n : Nat} (h : GoesTo s i n) : n = i.target s := by
  cases h with
  | jump | call => rfl
  | jumpPlus => exact Nat.add_comm _ _
  | ret hentries =>
    rw [target, CallStack.top, hentries, List.getLast?_concat]
    rfl
  | skip hskip => rw [target_of_not_jumps (jumps_of_skips hskip), if_pos (skips_iff.2 hskip)]
  | next hjumps hskip => rw [target_of_not_jumps hjumps, if_neg (mt skips_iff.1 hskip)]

/-- An instruction with nothing in its way goes somewhere. -/
theorem goesTo_target (hs : s.Bounded) (ho : i.obstacle s = none) : GoesTo s i (i.target s) := by
  cases hjumps : i.jumps with
  | true =>
    cases i with
    | jump | call => constructor
    | jumpPlus target =>
      rw [Instruction.target, Nat.add_comm]
      exact .jumpPlus
    | ret =>
      have hdepth : s.calls.depth ≠ 0 := by
        intro h0
        rw [obstacle, if_pos h0] at ho
        cases ho
      exact .ret (CallStack.entries_dropTop hdepth hs.depth)
    | _ => cases hjumps
  | false =>
    rw [target_of_not_jumps hjumps]
    by_cases hskip : Skips s i
    · rw [if_pos (skips_iff.2 hskip)]
      exact .skip hskip
    · rw [if_neg (mt skips_iff.1 hskip)]
      exact .next hjumps hskip

/-- **The rules leave one address.** -/
theorem goesTo_iff (hs : s.Bounded) (ho : i.obstacle s = none) {n : Nat} :
    GoesTo s i n ↔ n = i.target s := by
  constructor
  · exact target_of_goesTo
  · rintro rfl
    exact goesTo_target hs ho

end

end Instruction

/-! ## A step -/

/-- A step goes where the rules say. -/
theorem Machine.goesTo_of_executed {m : Machine} (hm : m.state.Bounded) {u : Supply} {c : Cycle}
    (h : (m.step u).reply = .executed c) :
    ∃ i : Instruction, m.state.At i ∧ c = ⟨i.encode, m.state.pc⟩ ∧
      (m.step u).machine.state.pc.toNat ≤ 0x10FE ∧
      ∀ n, i.GoesTo m.state n ↔ n = (m.step u).machine.state.pc.toNat := by
  obtain ⟨i, hat, hc, hnone, hlt, hstate⟩ := step_of_executed h
  have hpc : (m.step u).machine.state.pc.toNat = i.target m.state := by
    rw [hstate]
    exact UInt16.toNat_ofNat_of_lt' hlt
  refine ⟨i, hat, hc, ?_, fun n => ?_⟩
  · rw [hpc]
    exact Instruction.target_le hm hat.1 i
  · rw [hpc]
    exact Instruction.goesTo_iff hm hnone

/-- **Where a program goes on.** Every step of a reachable machine that executes an instruction goes
to the one address that the rules leave for it, which is at most `0x10FE`. Of two skips with
opposite conditions exactly one skips in any state, past the next instruction, while the other goes
behind itself, where the counter holds that, and neither changes anything else; a register that is
the number of no key counts as that of a key that is up. And `FX0A` executes exactly if some key is
down: it puts the greatest of those that are into `VX`, leaves the other registers as they are and
goes behind itself, and otherwise waits and leaves everything as it was. -/
theorem program_goes_on {m : Machine} (h : Reachable m) :
    (∀ u c, (m.step u).reply = .executed c →
      ∃ i : Instruction, m.state.At i ∧ c = ⟨i.encode, m.state.pc⟩ ∧
        (m.step u).machine.state.pc.toNat ≤ 0x10FE ∧
        ∀ n, i.GoesTo m.state n ↔ n = (m.step u).machine.state.pc.toNat) ∧
    (∀ (s : State) (i j : Instruction), i.Opposite j →
      (i.Skips s ↔ ¬ j.Skips s) ∧
      ∀ k : Instruction, k = i ∨ k = j → ∀ wrap byte t,
        (k.Skips s → (k.execute wrap byte s = .ok t ↔
            s.pc.toNat + 4 < 65536 ∧ t = { s with pc := s.pc + 4 })) ∧
          (¬ k.Skips s → (k.execute wrap byte s = .ok t ↔
            s.pc.toNat + 2 < 65536 ∧ t = { s with pc := s.pc + 2 }))) ∧
    (∀ (s : State) (x : Register), 16 ≤ (s.v.get x).toNat →
      ¬ (Instruction.skipDown x).Skips s ∧ (Instruction.skipUp x).Skips s) ∧
    ∀ (x : Register) (u : Supply), m.paused = false → m.state.At (.awaitKey x) →
      ((∃ c, (m.step u).reply = .executed c) ↔ ∃ key, m.isKeyDown key = true) ∧
      (∀ key, m.isKeyDown key = true → (∀ k, m.isKeyDown k = true → k ≤ key) →
        (m.step u).machine.state = { m.state.setV x key with pc := m.state.pc + 2 } ∧
        (m.step u).machine.state.v.get x = key ∧
        (∀ r, r ≠ x → (m.step u).machine.state.v.get r = m.state.v.get r) ∧
        (m.step u).machine.state.pc = m.state.pc + 2) ∧
      ((∀ key, m.isKeyDown key = false) → m.step u = ⟨.awaitingKey, m, u⟩) := by
  refine ⟨fun u c => Machine.goesTo_of_executed h.bounded, fun s i j hij => ⟨hij.skips_iff, ?_⟩,
    fun s x => Instruction.skips_of_noKey, fun x u hp hat => ?_⟩
  · exact fun k hk wrap byte t => hij.execute_eq_ok_iff hk wrap byte t
  · have hup : (∀ key, m.isKeyDown key = false) → m.step u = ⟨.awaitingKey, m, u⟩ := by
      intro hkeys
      rw [Machine.step_of_keysUp hat (.inr hkeys) u, hp]
      rfl
    refine ⟨⟨fun ⟨c, hc⟩ => ?_, fun hdown => ?_⟩, fun key hkey hmax => ?_, hup⟩
    · by_contra hnone
      rw [hup fun key => by simpa using fun hkey => hnone ⟨key, hkey⟩] at hc
      cases hc
    · obtain ⟨key, -, -, hstep⟩ := Machine.step_of_keyDown hat hp hdown u
      exact ⟨_, congrArg After.reply hstep⟩
    · obtain ⟨key', hkey', hmax', hstep⟩ := Machine.step_of_keyDown hat hp ⟨key, hkey⟩ u
      have hsame : key' = key := UInt8.le_antisymm (hmax key' hkey') (hmax' key hkey)
      have hnext : (m.step u).machine.state = { m.state.setV x key with pc := m.state.pc + 2 } := by
        rw [hstep, hsame]
        rfl
      exact ⟨hnext, State.reads_of_eq_setV hnext⟩

/-- A jump past the end of memory, and a key that has no number. -/
theorem program_goes_on_past_memory :
    let m := (Operation.run (.new .flat) (.ofSeed 1)
      [.load [0x60, 0xFF, 0xBF, 0xFF], .step]).machine
    Reachable m ∧ (m.step (.ofSeed 1)).reply = .executed ⟨0xBFFF, 0x202⟩ ∧
      (m.step (.ofSeed 1)).machine.state.pc.toNat = 0x10FE ∧
      ∃ t, (Instruction.skipUp 0).execute .flat 0 m.state = .ok t ∧ t.pc = 0x206 := by
  intro m
  have hm : Reachable m := (Reachable.new .flat).run _ _
  have hstep : (m.step (.ofSeed 1)).reply = .executed ⟨0xBFFF, 0x202⟩ := by decide +kernel
  have hs : m.state.v.get 0 = 0xFF ∧ m.state.pc = 0x202 := by decide +kernel
  obtain ⟨hgoes, hskips, hnoKey, -⟩ := program_goes_on hm
  obtain ⟨i, -, hc, -, hpc⟩ := hgoes (.ofSeed 1) _ hstep
  have hi : i = .jumpPlus 0xFFF := Instruction.eq_of_encode (congrArg Cycle.word hc).symm rfl
  subst hi
  have hlast := (hpc _).1 .jumpPlus
  rw [hs.1] at hlast
  obtain ⟨-, hup⟩ := hnoKey m.state 0 (by rw [hs.1]; decide)
  obtain ⟨-, hexecute⟩ := hskips m.state _ _ (.key 0)
  have hok := ((hexecute (.skipUp 0) (.inr rfl) .flat 0 _).1 hup).2 ⟨by rw [hs.2]; decide, rfl⟩
  exact ⟨hm, hstep, hlast.symm, _, hok, by rw [hs.2]; rfl⟩

end Chip8VM
