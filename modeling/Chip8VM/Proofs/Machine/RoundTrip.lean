import Chip8VM.Proofs.Machine.Bounds
import Chip8VM.Proofs.Machine.Footprint

/-!
# Storing and loading undo each other

`FX55` copies `V0` to `VX` into memory at `I`, and `FX65` copies them back; both leave `I` behind
the bytes. After either of them the registers and the bytes mirror each other (`Memory.Mirrors`),
and then a copy in either direction changes neither (`Mirrors.store_eq`, `Mirrors.withFirst_eq`). So
when `I` is set back to where it was, the other one of the two undoes the copy.
-/

set_option autoImplicit false

namespace Chip8VM

/-! ## Registers and bytes that mirror each other -/

namespace Memory

/-- From an address on, memory holds what `V0` to `VX` hold. -/
def Mirrors (m : Memory) (v : Vector UInt8 16) (base : Nat) (x : Register) : Prop :=
  ∀ r : Register, r ≤ x → m.bytes[base + r.val]? = some (v.get r)

variable {m : Memory} {v : Vector UInt8 16} {base : Nat} {x : Register}

theorem length_take_registers (v : Vector UInt8 16) (x : Register) :
    (v.toList.take (x.val + 1)).length = x.val + 1 := by
  rw [List.length_take, Vector.length_toList]
  omega

/-- A copy into memory writes the register of the same number at each place of the range. -/
theorem getElem_store_registers (m : Memory) (v : Vector UInt8 16) (base : Nat) (x : Register)
    {a : Nat} (h : a < 4096) :
    (m.store base (v.toList.take (x.val + 1))).bytes[a] =
      if hr : base ≤ a ∧ a - base < x.val + 1 then v.get ⟨a - base, by omega⟩ else m.bytes[a] := by
  rw [getElem_store]
  have hlen := length_take_registers v x
  by_cases hr : base ≤ a ∧ a - base < x.val + 1
  · rw [dif_pos hr, dif_pos ⟨hr.1, by omega⟩, List.getElem_take, Vector.getElem_toList]
    rfl
  · rw [dif_neg hr, dif_neg (by omega)]

theorem mirrors_store (h : base + (x.val + 1) ≤ 4096) :
    (m.store base (v.toList.take (x.val + 1))).Mirrors v base x := by
  intro r hr
  have hle : r.val ≤ x.val := hr
  have hlt : base + r.val < 4096 := by omega
  rw [Vector.getElem?_eq_getElem hlt, getElem_store_registers m v base x hlt, dif_pos (by omega)]
  simp only [Nat.add_sub_cancel_left]

theorem mirrors_withFirst (h : base + (x.val + 1) ≤ 4096) :
    m.Mirrors (State.withFirst v (m.peek base (x.val + 1))) base x := by
  intro r hr
  have hle : r.val < x.val + 1 := Nat.lt_succ_of_le hr
  have hlt : base + r.val < 4096 := by omega
  show _ = some ((State.withFirst v (m.peek base (x.val + 1)))[r.val])
  rw [State.withFirst, Vector.getElem_ofFn, dif_pos hle, peek, Vector.getElem_ofFn,
    Vector.getElem?_eq_getElem hlt, Option.getD_some]

/-- A copy into memory that mirrors the registers changes nothing. -/
theorem Mirrors.store_eq (h : m.Mirrors v base x) :
    m.store base (v.toList.take (x.val + 1)) = m := by
  have hbytes : (m.store base (v.toList.take (x.val + 1))).bytes = m.bytes := by
    apply Vector.ext
    intro a ha
    rw [getElem_store_registers m v base x ha]
    by_cases hr : base ≤ a ∧ a - base < x.val + 1
    · have hle : (⟨a - base, by omega⟩ : Register) ≤ x := Nat.le_of_lt_succ hr.2
      have hbyte := h _ hle
      have hplace : base + (a - base) = a := by omega
      simp only [hplace, Vector.getElem?_eq_getElem ha, Option.some.injEq] at hbyte
      rw [dif_pos hr, hbyte]
    · rw [dif_neg hr]
  exact congrArg Memory.mk hbytes

/-- A copy into the registers from memory that mirrors them changes nothing. -/
theorem Mirrors.withFirst_eq (h : m.Mirrors v base x) :
    State.withFirst v (m.peek base (x.val + 1)) = v := by
  apply Vector.ext
  intro k hk
  rw [State.withFirst, Vector.getElem_ofFn]
  by_cases hlt : k < x.val + 1
  · have hle : (⟨k, hk⟩ : Register) ≤ x := Nat.le_of_lt_succ hlt
    rw [dif_pos hlt, peek, Vector.getElem_ofFn]
    simp only [h _ hle, Option.getD_some]
    rfl
  · rw [dif_neg hlt]
    rfl

end Memory

/-! ## The instructions -/

namespace Instruction

section

variable {s : State} (hpc : s.pc.toNat ≤ 0xFFFD) (wrap : Wrap) (byte : UInt8)
include hpc

theorem execute_setIndex (a : Fin 4096) :
    (setIndex a).execute wrap byte s =
      .ok { s with index := UInt16.ofNat a.val, pc := s.pc + 2 } :=
  execute_of_goesOn hpc rfl rfl wrap byte

variable {x : Register} (hfits : s.index.toNat + (x.val + 1) ≤ 4096)
include hfits

theorem execute_store :
    (store x).execute wrap byte s =
      .ok { s with
        memory := s.memory.store s.index.toNat (s.v.toList.take (x.val + 1))
        index := UInt16.ofNat (s.index.toNat + (x.val + 1)), pc := s.pc + 2 } := by
  refine execute_of_goesOn hpc ?_ rfl wrap byte
  rw [obstacle, rangeObstacle, if_neg (Nat.not_lt_of_le hfits)]

theorem execute_load :
    (load x).execute wrap byte s =
      .ok { s with
        v := State.withFirst s.v (s.memory.peek s.index.toNat (x.val + 1))
        index := UInt16.ofNat (s.index.toNat + (x.val + 1)), pc := s.pc + 2 } := by
  refine execute_of_goesOn hpc ?_ rfl wrap byte
  rw [obstacle, rangeObstacle, if_neg (Nat.not_lt_of_le hfits)]

end

/-- Neither copy is begun if the bytes are not all in memory. -/
theorem obstacle_of_past {s : State} {x : Register} (h : 4096 < s.index.toNat + (x.val + 1))
    {i : Instruction} (hi : i = .store x ∨ i = .load x) :
    i.obstacle s = some (.fault (.outOfRange (max s.index.toNat 4096))) := by
  rcases hi with rfl | rfl
  · rw [obstacle, rangeObstacle, if_pos h]
  · rw [obstacle, rangeObstacle, if_pos h]

end Instruction

/-! ## There and back -/

section

variable {s : State} {x : Register} {a : Fin 4096}

/-- Where the two mirror each other already, a copy in either direction moves `I` alone. -/
theorem Memory.Mirrors.executeAll_eq (h : s.memory.Mirrors s.v a.val x)
    (hpc : s.pc.toNat ≤ 0xFFFB) (hfits : a.val + (x.val + 1) ≤ 4096) {i : Instruction}
    (hi : i = .store x ∨ i = .load x) (wrap : Wrap) (byte : UInt8) :
    Instruction.executeAll wrap byte s [.setIndex a, i] =
      .ok { s with index := UInt16.ofNat (a.val + (x.val + 1)), pc := s.pc + 4 } := by
  let back : State := { s with index := UInt16.ofNat a.val, pc := s.pc + 2 }
  have hindex : back.index.toNat = a.val :=
    UInt16.toNat_ofNat_of_lt' (Nat.lt_trans a.isLt (by decide))
  have hback : back.pc.toNat ≤ 0xFFFD := by
    have hpc2 : back.pc.toNat = s.pc.toNat + 2 := State.toNat_behind (by omega)
    omega
  have hpc4 : s.pc + 2 + 2 = s.pc + 4 := by
    rw [UInt16.add_assoc]
    rfl
  rw [← hindex] at hfits
  rw [Instruction.executeAll_cons (Instruction.execute_setIndex (by omega) wrap byte a)]
  rcases hi with rfl | rfl
  · have hstore := Instruction.execute_store hback wrap byte hfits
    rw [hindex, h.store_eq, hpc4] at hstore
    exact Instruction.executeAll_cons hstore []
  · have hload := Instruction.execute_load hback wrap byte hfits
    rw [hindex, h.withFirst_eq, hpc4] at hload
    exact Instruction.executeAll_cons hload []

end

namespace Instruction

variable {s : State} (hpc : s.pc.toNat ≤ 0xFFF9) {x : Register} {a : Fin 4096}
  (hindex : s.index.toNat = a.val) (hfits : a.val + (x.val + 1) ≤ 4096) (wrap : Wrap) (byte : UInt8)
include hpc hindex hfits

/-- A load behind a store gives the registers what they have. -/
theorem execute_store_load :
    ∃ t, (store x).execute wrap byte s = .ok t ∧
      executeAll wrap byte t [.setIndex a, .load x] =
        .ok { s with
          memory := t.memory, index := UInt16.ofNat (a.val + (x.val + 1)), pc := s.pc + 6 } ∧
      t.memory.Mirrors s.v a.val x ∧
      ∀ k (hk : k < 4096), k < a.val ∨ a.val + x.val < k →
        t.memory.bytes[k] = s.memory.bytes[k] := by
  let t : State := { s with
    memory := s.memory.store a.val (s.v.toList.take (x.val + 1))
    index := UInt16.ofNat (a.val + (x.val + 1)), pc := s.pc + 2 }
  have hok : (store x).execute wrap byte s = .ok t := by
    rw [execute_store (by omega) wrap byte (hindex ▸ hfits), hindex]
  have hmirrors : t.memory.Mirrors t.v a.val x := Memory.mirrors_store hfits
  have hpc2 : t.pc.toNat = s.pc.toNat + 2 := State.toNat_behind (by omega)
  have hpc6 : t.pc + 4 = s.pc + 6 := UInt16.add_assoc s.pc 2 4
  refine ⟨t, hok, ?_, hmirrors, fun k hk hout => ?_⟩
  · rw [hmirrors.executeAll_eq (by omega) hfits (.inr rfl), hpc6]
  · rw [Memory.getElem_store_registers s.memory s.v a.val x hk, dif_neg (by omega)]

/-- A store behind a load gives memory what it has. -/
theorem execute_load_store :
    ∃ t, (load x).execute wrap byte s = .ok t ∧
      executeAll wrap byte t [.setIndex a, .store x] =
        .ok { s with
          v := t.v, index := UInt16.ofNat (a.val + (x.val + 1)), pc := s.pc + 6 } ∧
      s.memory.Mirrors t.v a.val x ∧ ∀ r, x < r → t.v.get r = s.v.get r := by
  let t : State := { s with
    v := State.withFirst s.v (s.memory.peek a.val (x.val + 1))
    index := UInt16.ofNat (a.val + (x.val + 1)), pc := s.pc + 2 }
  have hok : (load x).execute wrap byte s = .ok t := by
    rw [execute_load (by omega) wrap byte (hindex ▸ hfits), hindex]
  have hmirrors : t.memory.Mirrors t.v a.val x := Memory.mirrors_withFirst hfits
  have hpc2 : t.pc.toNat = s.pc.toNat + 2 := State.toNat_behind (by omega)
  have hpc6 : t.pc + 4 = s.pc + 6 := UInt16.add_assoc s.pc 2 4
  refine ⟨t, hok, ?_, hmirrors, fun r hr => ?_⟩
  · rw [hmirrors.executeAll_eq (by omega) hfits (.inl rfl), hpc6]
  · exact State.get_withFirst_of_le s.v _ hr

end Instruction

/-- **Storing and loading undo each other.** Take any reachable state and any `X`. If the bytes from
`I` on for `V0` to `VX` are in memory, then `I` fits into `ANNN`, and `FX55`, `ANNN` back to where
`I` was and `FX65` complete, and so they do in the other order. The first order leaves memory as
`FX55` left it and the second one the registers as `FX65` left them; `I` ends behind the bytes, the
counter behind the instructions, and all else stays, that is the registers in the first order and
memory in the second. In between the registers and the bytes hold the same, and neither copy touches
a byte outside the range or a register above `VX`. If the bytes are not all in memory, both copies
are refused and change nothing. -/
theorem store_and_load_undo_each_other {m : Machine} (h : Reachable m) (x : Register) :
    let s := m.state
    (s.index.toNat + x.val + 1 ≤ 4096 → ∃ (a : Fin 4096) (behind : Word),
      a.val = s.index.toNat ∧ (Instruction.setIndex a).encode.toNat = 0xA000 + s.index.toNat ∧
      behind.toNat = s.index.toNat + x.val + 1 ∧
      ∀ (wrap : Wrap) (byte : UInt8),
        (∃ t, (Instruction.store x).execute wrap byte s = .ok t ∧
          Instruction.executeAll wrap byte t [.setIndex a, .load x] =
            .ok { s with memory := t.memory, index := behind, pc := s.pc + 6 } ∧
          t.memory.Mirrors s.v s.index.toNat x ∧
          ∀ k (hk : k < 4096), k < s.index.toNat ∨ s.index.toNat + x.val < k →
            t.memory.bytes[k] = s.memory.bytes[k]) ∧
        ∃ t, (Instruction.load x).execute wrap byte s = .ok t ∧
          Instruction.executeAll wrap byte t [.setIndex a, .store x] =
            .ok { s with v := t.v, index := behind, pc := s.pc + 6 } ∧
          s.memory.Mirrors t.v s.index.toNat x ∧ ∀ r, x < r → t.v.get r = s.v.get r) ∧
    (4096 < s.index.toNat + x.val + 1 → ∀ i, i = Instruction.store x ∨ i = Instruction.load x →
      (∀ wrap byte, i.execute wrap byte s =
        .error (.fault (.outOfRange (max s.index.toNat 4096)))) ∧
      ∀ u, m.paused = false → s.At i →
        m.step u = ⟨.failed (.outOfRange (max s.index.toNat 4096)), m, u⟩) := by
  intro s
  have hpc : s.pc.toNat ≤ 0xFFF9 := Nat.le_trans h.bounded.pc (by decide)
  constructor
  · intro hfits
    refine ⟨⟨s.index.toNat, by omega⟩, UInt16.ofNat (s.index.toNat + (x.val + 1)), rfl, ?_, ?_,
      fun wrap byte => ⟨?_, ?_⟩⟩
    · rw [Instruction.encode, Word.toNat_ofAddress]
      rfl
    · exact UInt16.toNat_ofNat_of_lt' (Nat.lt_of_le_of_lt hfits (by decide))
    · exact Instruction.execute_store_load hpc rfl hfits wrap byte
    · exact Instruction.execute_load_store hpc rfl hfits wrap byte
  · intro hpast i hi
    have hobstacle : i.obstacle m.state =
        some (.fault (.outOfRange (max s.index.toNat 4096))) :=
      Instruction.obstacle_of_past hpast hi
    refine ⟨fun wrap byte => ?_, fun u hp hat => ?_⟩
    · rw [Instruction.execute_eq, hobstacle]
    · rw [Machine.step_of_at hp hat, hobstacle]
      rfl

/-- All sixteen registers are stored into the last bytes of memory and loaded back. -/
theorem store_and_load_undo_at_end_of_memory :
    let m := (Operation.run (.new .flat) (.ofSeed 1)
      [.load [0x6F, 0x2A, 0xAF, 0xF0], .step, .step]).machine
    Reachable m ∧ ∃ t, (Instruction.store 0xF).execute .flat 0 m.state = .ok t ∧
      t.memory.bytes[0xFFF] = 0x2A ∧
      Instruction.executeAll .flat 0 t [.setIndex 0xFF0, .load 0xF] =
        .ok { m.state with memory := t.memory, index := 0x1000, pc := 0x20A } := by
  intro m
  have hm : Reachable m := (Reachable.new .flat).run _ _
  have hs : m.state.index = 0xFF0 ∧ m.state.pc = 0x204 ∧ m.state.v.get 0xF = 0x2A := by
    decide +kernel
  obtain ⟨hindex, hpc, hv⟩ := hs
  obtain ⟨a, behind, ha, -, hbehind, hboth⟩ :=
    (store_and_load_undo_each_other hm 0xF).1 (by rw [hindex]; decide)
  obtain ⟨⟨t, hok, hback, hmirrors, -⟩, -⟩ := hboth .flat 0
  rw [hindex] at ha hbehind hmirrors
  have ha : a = 0xFF0 := Fin.ext ha
  have hbehind : behind = 0x1000 := UInt16.toNat_inj.1 hbehind
  have hlast := hmirrors 0xF (Fin.le_refl _)
  rw [hv] at hlast
  rw [ha, hbehind, hpc] at hback
  exact ⟨hm, t, hok, Option.some.inj hlast, hback⟩

end Chip8VM
