import Chip8VM.Proofs.Machine.Bounds

/-!
# Results and flags

`8XY4` to `8XY7` and `8XYE` put a byte into `VX` and a bit into `VF`. For each of them one equation
between numbers says which, and it has one solution for any operands (`Arithmetic.solves_iff`). The
operands are read before anything is written and the flag is written last, so the solution ends up
in the registers however `X`, `Y` and `F` coincide, but for a result that the flag takes the place
of. `7XNN` and `FX1E` wrap around in a byte and in a word, and only the second one sets the flag.
-/

set_option autoImplicit false

namespace Chip8VM

/-- One of the instructions that put a result into `VX` and a flag into `VF`. -/
inductive Arithmetic where
  | add
  | sub
  | shiftRight
  | subFrom
  | shiftLeft
deriving DecidableEq, Repr

namespace Arithmetic

/-- The instruction on two registers. -/
def on (x y : Register) : Arithmetic → Instruction
  | .add => .add x y
  | .sub => .sub x y
  | .shiftRight => .shiftRight x y
  | .subFrom => .subFrom x y
  | .shiftLeft => .shiftLeft x y

/-- The byte `r` and the bit `f` are what the operands `a`, in `VX`, and `b`, in `VY`, come to. -/
def Solves (a b r : UInt8) (f : Bool) : Arithmetic → Prop
  | .add => r.toNat + 256 * f.toNat = a.toNat + b.toNat
  | .sub => r.toNat + b.toNat = a.toNat + 256 * (1 - f.toNat)
  | .shiftRight => 2 * r.toNat + f.toNat = a.toNat
  | .subFrom => r.toNat + a.toNat = b.toNat + 256 * (1 - f.toNat)
  | .shiftLeft => r.toNat + 256 * f.toNat = 2 * a.toNat

instance (a b r : UInt8) (f : Bool) : (k : Arithmetic) → Decidable (k.Solves a b r f)
  | .add | .sub | .shiftRight | .subFrom | .shiftLeft => Nat.decEq _ _

/-- The byte that is put into `VX`. -/
def result (a b : UInt8) : Arithmetic → UInt8
  | .add => a + b
  | .sub => a - b
  | .shiftRight => a >>> 1
  | .subFrom => b - a
  | .shiftLeft => a <<< 1

/-- The bit that is put into `VF`. -/
def flag (a b : UInt8) : Arithmetic → Bool
  | .add => decide (a.toNat + b.toNat > 255)
  | .sub => decide (b ≤ a)
  | .shiftRight => a.toNat.testBit 0
  | .subFrom => decide (a ≤ b)
  | .shiftLeft => a.toNat.testBit 7

theorem effect_on (k : Arithmetic) (x y : Register) (wrap : Wrap) (byte : UInt8) (s : State) :
    (k.on x y).effect wrap byte s =
      s.setFlagged x (k.result (s.v.get x) (s.v.get y)) (k.flag (s.v.get x) (s.v.get y)) := by
  cases k <;> rfl

/-! ## One solution -/

theorem difference_iff {a b r : UInt8} {f : Bool} :
    r.toNat + b.toNat = a.toNat + 256 * (1 - f.toNat) ↔ r = a - b ∧ f = decide (b ≤ a) := by
  have ha := a.toNat_lt
  have hb := b.toNat_lt
  have hr := r.toNat_lt
  simp only [← UInt8.toNat_inj, UInt8.toNat_sub, UInt8.le_iff_toNat_le]
  by_cases hborrow : b.toNat ≤ a.toNat
  · cases f <;> simp [hborrow] <;> omega
  · cases f <;> simp [hborrow] <;> omega

/-- **One solution**: the equation of an instruction has it in what the instruction puts into the
registers. -/
theorem solves_iff (k : Arithmetic) (a b r : UInt8) (f : Bool) :
    k.Solves a b r f ↔ r = k.result a b ∧ f = k.flag a b := by
  have ha := a.toNat_lt
  have hb := b.toNat_lt
  have hr := r.toNat_lt
  cases k with
  | add =>
    rw [← UInt8.toNat_inj]
    simp only [Solves, result, flag, UInt8.toNat_add]
    by_cases hcarry : a.toNat + b.toNat > 255
    · cases f <;> simp [hcarry] <;> omega
    · cases f <;> simp [hcarry] <;> omega
  | sub => exact difference_iff
  | subFrom => exact difference_iff
  | shiftRight =>
    have hhalf : (a >>> 1).toNat = a.toNat / 2 := by
      rw [UInt8.toNat_shiftRight, Nat.shiftRight_eq_div_pow]
      rfl
    rw [← UInt8.toNat_inj]
    simp only [Solves, result, flag, hhalf, Nat.testBit_eq_decide_div_mod_eq]
    cases f <;> simp <;> omega
  | shiftLeft =>
    have hdouble : (a <<< 1).toNat = 2 * a.toNat % 256 := by
      rw [UInt8.toNat_shiftLeft, Nat.shiftLeft_eq, Nat.mul_comm]
      rfl
    rw [← UInt8.toNat_inj]
    simp only [Solves, result, flag, hdouble, Nat.testBit_eq_decide_div_mod_eq]
    cases f <;> simp <;> omega

end Arithmetic

/-! ## What the instructions leave -/

/-- The instruction completes in the state, whatever else it is given, and then `P` holds. -/
def Instruction.Leaves (i : Instruction) (s : State) (P : State → Prop) : Prop :=
  ∀ (wrap : Wrap) (byte : UInt8), ∃ t, i.execute wrap byte s = .ok t ∧ P t

section

variable {s : State} (hpc : s.pc.toNat ≤ 0xFFFD)
include hpc

theorem Arithmetic.on_leaves (k : Arithmetic) (x y : Register) :
    (k.on x y).Leaves s fun t =>
      t.v.get flagRegister = (k.flag (s.v.get x) (s.v.get y)).toUInt8 ∧
        (x ≠ flagRegister → t.v.get x = k.result (s.v.get x) (s.v.get y)) := by
  intro wrap byte
  have hok : (k.on x y).execute wrap byte s =
      .ok { (k.on x y).effect wrap byte s with pc := s.pc + 2 } :=
    Instruction.execute_of_goesOn hpc (by cases k <;> rfl) (by cases k <;> rfl) wrap byte
  rw [k.effect_on] at hok
  refine ⟨_, hok, s.get_setFlagged_flag x _ _, fun hx => ?_⟩
  have hget := s.get_setFlagged_of_ne hx x (k.result (s.v.get x) (s.v.get y))
    (k.flag (s.v.get x) (s.v.get y))
  rwa [if_pos rfl] at hget

theorem Instruction.addByte_leaves (x : Register) (byte : UInt8) :
    (addByte x byte).Leaves s fun t =>
      (t.v.get x).toNat = ((s.v.get x).toNat + byte.toNat) % 256 ∧
        (x ≠ flagRegister → t.v.get flagRegister = s.v.get flagRegister) := by
  intro wrap random
  refine ⟨_, execute_of_goesOn hpc rfl rfl wrap random, ?_, fun hx => ?_⟩
  · show (((s.setV x (s.v.get x + byte)).v.get x)).toNat = _
    rw [State.get_setV, if_pos rfl, UInt8.toNat_add]
  · show (s.setV x (s.v.get x + byte)).v.get flagRegister = _
    rw [State.get_setV, if_neg hx]

theorem Instruction.addIndex_leaves (x : Register) :
    (addIndex x).Leaves s fun t =>
      t.index.toNat = (s.index.toNat + (s.v.get x).toNat) % 65536 ∧
        t.v.get flagRegister = if s.index.toNat + (s.v.get x).toNat > 0xFFF then 1 else 0 := by
  intro wrap byte
  refine ⟨_, execute_of_goesOn hpc rfl rfl wrap byte, ?_, ?_⟩
  · exact UInt16.toNat_ofNat'
  · show ((s.moveIndex (s.v.get x).toNat).setV flagRegister _).v.get flagRegister = _
    rw [State.get_setV, if_pos rfl, Memory.last]
    by_cases hpast : s.index.toNat + (s.v.get x).toNat > 0xFFF
    · rw [decide_eq_true hpast, if_pos hpast]
      rfl
    · rw [decide_eq_false hpast, if_neg hpast]
      rfl

end

/-- **Result and flag.** In every reachable state each of the five instructions completes, for any
two registers. Its equation between the operands, as they were before it, has one solution, a byte
and a bit: then the bit is in `VF`, and the byte in `VX` unless that is `VF`. `7XNN` adds around the
end of the byte and leaves `VF` alone unless that is `VX`, and `FX1E` adds around the end of the
word and tells in `VF` whether the exact sum is past the last address. -/
theorem result_and_flag_solve {m : Machine} (h : Reachable m) :
    let s := m.state
    (∀ (k : Arithmetic) (x y : Register), ∃ r f,
      (∀ r' f', k.Solves (s.v.get x) (s.v.get y) r' f' ↔ r' = r ∧ f' = f) ∧
      (k.on x y).Leaves s fun t =>
        t.v.get flagRegister = Bool.toUInt8 f ∧ (x ≠ flagRegister → t.v.get x = r)) ∧
    (∀ (x : Register) (byte : UInt8), (Instruction.addByte x byte).Leaves s fun t =>
      (t.v.get x).toNat = ((s.v.get x).toNat + byte.toNat) % 256 ∧
        (x ≠ flagRegister → t.v.get flagRegister = s.v.get flagRegister)) ∧
    ∀ x : Register, (Instruction.addIndex x).Leaves s fun t =>
      t.index.toNat = (s.index.toNat + (s.v.get x).toNat) % 65536 ∧
        t.v.get flagRegister = if s.index.toNat + (s.v.get x).toNat > 0xFFF then 1 else 0 := by
  intro s
  have hpc : s.pc.toNat ≤ 0xFFFD := Nat.le_trans h.bounded.pc (by decide)
  exact ⟨fun k x y => ⟨_, _, k.solves_iff _ _, k.on_leaves hpc x y⟩,
    Instruction.addByte_leaves hpc, Instruction.addIndex_leaves hpc⟩

/-- `8F14` with 2 in `VF` and 255 in `V1`: the flag is the carry, and the sum is lost. -/
theorem result_and_flag_solve_in_flag :
    let m := (Operation.run (.new .flat) (.ofSeed 1)
      [.load [0x61, 0xFF, 0x6F, 0x02], .step, .step]).machine
    Reachable m ∧ ∃ t, (Instruction.add flagRegister 1).execute .flat 0 m.state = .ok t ∧
      t.v.get flagRegister = 1 := by
  intro m
  have hm : Reachable m := (Reachable.new .flat).run _ _
  have hv : m.state.v.get flagRegister = 2 ∧ m.state.v.get 1 = 255 := by decide +kernel
  obtain ⟨hsolve, -, -⟩ := result_and_flag_solve hm
  obtain ⟨r, f, hiff, hleaves⟩ := hsolve .add flagRegister 1
  rw [hv.1, hv.2] at hiff
  obtain ⟨-, rfl⟩ := (hiff 1 true).1 (by decide)
  obtain ⟨t, hok, hflag, -⟩ := hleaves .flat 0
  exact ⟨hm, t, hok, hflag⟩

end Chip8VM
