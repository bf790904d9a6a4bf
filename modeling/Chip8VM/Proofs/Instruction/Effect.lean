import Chip8VM.Execution

/-!
# What an instruction does

`Instruction.execute` interleaves the tests that may refuse an instruction with what it changes.
Here the two are taken apart: `obstacle` says why an instruction does not complete in a state,
`effect` what it changes apart from the counter, and `target` where it goes. All three are total,
and `execute_eq` puts `execute` together from them; what is proved about instructions elsewhere is
proved about the three.
-/

set_option autoImplicit false

namespace Chip8VM

namespace Memory

/-- The `len` bytes from an address on, with zeros for those past the end of memory. -/
def peek (m : Memory) (address len : Nat) : Vector UInt8 len :=
  Vector.ofFn fun k => (m.bytes[address + k.val]?).getD 0

theorem read_eq (m : Memory) (address len : Nat) :
    m.read address len = if address + len > 4096 then .error (.outOfRange (max address 4096))
      else .ok (m.peek address len) := by
  unfold read peek
  split
  · rfl
  · congr 2
    funext k
    rw [Vector.getElem?_eq_getElem (by omega), Option.getD_some]

theorem write_eq (m : Memory) (address : Nat) (bytes : List UInt8) :
    m.write address bytes =
      if address + bytes.length > 4096 then .error (.outOfRange (max address 4096))
      else .ok (m.store address bytes) := rfl

end Memory

namespace CallStack

/-- The address on top, 0 if there is none. -/
def top (s : CallStack) : Word := s.entries.getLast?.getD 0

/-- The stack without the address on top, whose slot keeps it. -/
def dropTop (s : CallStack) : CallStack := ⟨s.slots, s.depth - 1⟩

/-- The stack with an address on top, which is dropped if there is no slot for it. -/
def putTop (s : CallStack) (address : Word) : CallStack :=
  ⟨s.slots.setIfInBounds s.depth address, s.depth + 1⟩

theorem push_of_lt {s : CallStack} (h : s.depth < 16) (address : Word) :
    s.push address = .ok (s.putTop address) := by
  have hset : s.slots.set s.depth address = s.slots.setIfInBounds s.depth address :=
    Vector.ext fun i hi => by rw [Vector.getElem_set, Vector.getElem_setIfInBounds]
  simp [push, putTop, h, hset]

theorem push_of_gt {s : CallStack} (h : 16 < s.depth) (address : Word) :
    s.push address = .error (.noSlot s.depth) := by
  simp [push, show ¬ s.depth < 16 by omega]

theorem pop_of_pos {s : CallStack} (h : s.depth ≠ 0) (h16 : s.depth ≤ 16) :
    s.pop = .ok (s.top, s.dropTop) := by
  obtain ⟨slots, depth⟩ := s
  cases depth with
  | zero => exact absurd rfl h
  | succ d =>
    have hd : d < 16 := h16
    simp [pop, top, dropTop, entries, hd, List.getLast?_take]

theorem pop_of_gt {s : CallStack} (h : 16 < s.depth) : s.pop = .error (.noSlot (s.depth - 1)) := by
  obtain ⟨slots, depth⟩ := s
  cases depth with
  | zero => exact absurd h (Nat.not_lt_zero _)
  | succ d =>
    have hd : ¬ d < 16 := by simp only at h; omega
    simp [pop, hd]

end CallStack

theorem State.goto_eq (s : State) (n : Nat) :
    s.goto n = if n < 65536 then .ok { s with pc := UInt16.ofNat n }
      else .error (.trap (.tooLarge n)) := by
  unfold State.goto exactWord
  split <;> rfl

theorem State.ofNat_past (s : State) (n : Nat) :
    UInt16.ofNat (s.pc.toNat + n) = s.pc + UInt16.ofNat n := by
  rw [UInt16.ofNat_add, UInt16.ofNat_toNat]

/-- The counter behind an instruction that goes on. -/
theorem State.ofNat_behind (s : State) : UInt16.ofNat (s.pc.toNat + 2) = s.pc + 2 := s.ofNat_past 2

theorem State.toNat_behind {s : State} (h : s.pc.toNat ≤ 0xFFFD) :
    (s.pc + 2).toNat = s.pc.toNat + 2 := by
  rw [UInt16.toNat_add]
  simp only [UInt16.reduceToNat]
  omega

/-! ## Registers -/

namespace State

theorem get_setV (s : State) (x y : Register) (byte : UInt8) :
    (s.setV x byte).v.get y = if x = y then byte else s.v.get y := by
  show (s.setV x byte).v[y.val] = if x = y then byte else s.v[y.val]
  simp only [setV, Vector.getElem_set, Fin.val_inj]

/-- One register holds the byte that was put there, and the others hold what they held. -/
theorem registers_setV (s : State) (x : Register) (byte : UInt8) :
    (s.setV x byte).v.get x = byte ∧ ∀ r, r ≠ x → (s.setV x byte).v.get r = s.v.get r := by
  refine ⟨?_, fun r hr => ?_⟩
  · rw [get_setV, if_pos rfl]
  · rw [get_setV, if_neg hr.symm]

/-- What is read from a state that a byte was put into and that went on. -/
theorem reads_of_eq_setV {s t : State} {x : Register} {byte : UInt8} {pc : Word}
    (h : t = { s.setV x byte with pc }) :
    t.v.get x = byte ∧ (∀ r, r ≠ x → t.v.get r = s.v.get r) ∧ t.pc = pc := by
  subst h
  obtain ⟨hput, hothers⟩ := s.registers_setV x byte
  exact ⟨hput, hothers, rfl⟩

theorem get_setFlagged_flag (s : State) (x : Register) (result : UInt8) (flag : Bool) :
    (s.setFlagged x result flag).v.get flagRegister = flag.toUInt8 := by
  rw [setFlagged, get_setV, if_pos rfl]

/-- A register other than the flag is as it was set. -/
theorem get_setFlagged_of_ne (s : State) {y : Register} (h : y ≠ flagRegister) (x : Register)
    (result : UInt8) (flag : Bool) :
    (s.setFlagged x result flag).v.get y = if x = y then result else s.v.get y := by
  rw [setFlagged, get_setV, if_neg h.symm, get_setV]

end State

namespace Instruction

/-! ## The three parts -/

/-- Why `len` bytes at `I` cannot be had, if they cannot. -/
def rangeObstacle (s : State) (len : Nat) : Option Refusal :=
  if s.index.toNat + len > 4096 then some (.fault (.outOfRange (max s.index.toNat 4096))) else none

/-- Why an instruction does not complete in a state, if it does not. -/
def obstacle (s : State) : Instruction → Option Refusal
  | .ret =>
    if s.calls.depth = 0 then some (.fault (.stackUnderflow s.pc))
    else if 16 < s.calls.depth then some (.trap (.noSlot (s.calls.depth - 1)))
    else none
  | .call _ =>
    if s.calls.depth = 16 then some (.fault (.stackOverflow s.pc))
    else if 16 < s.calls.depth then some (.trap (.noSlot s.calls.depth))
    else none
  | .draw _ _ rows => rangeObstacle s rows.val
  | .awaitKey _ => if s.keys.greatest? = none then some .awaitingKey else none
  | .decimal _ => rangeObstacle s 3
  | .store x => rangeObstacle s (x.val + 1)
  | .load x => rangeObstacle s (x.val + 1)
  | _ => none

/-- Whether an instruction leaves the one behind it out. -/
def skips (s : State) : Instruction → Bool
  | .skipEqByte x b => s.v.get x == b
  | .skipNeByte x b => s.v.get x != b
  | .skipEq x y => s.v.get x == s.v.get y
  | .skipNe x y => s.v.get x != s.v.get y
  | .skipDown x => s.keys.isDown (s.v.get x).toNat
  | .skipUp x => !s.keys.isDown (s.v.get x).toNat
  | _ => false

/-- Where an instruction that completes goes. -/
def target (s : State) : Instruction → Nat
  | .ret => s.calls.top.toNat + 2
  | .jump target => target
  | .call target => target
  | .jumpPlus target => s.v0.toNat + target.val
  | i => s.pc.toNat + if i.skips s then 4 else 2

/-- Draws the sprite of the given height at `I`, its corner in column `x` of row `y`. -/
def drawn (wrap : Wrap) (s : State) (x y : UInt8) (height : Nat) : State :=
  let sprite := (s.memory.peek s.index.toNat height).toList
  let toggled := s.frame.toggleAll (Sprite.cells wrap x.toNat y.toNat sprite)
  { s with frame := toggled.2, drawn := true }.setV flagRegister toggled.1.toUInt8

/-- What an instruction that completes makes of a state, apart from the counter. -/
def effect (wrap : Wrap) (byte : UInt8) (s : State) : Instruction → State
  | .clear => { s with frame := .blank, drawn := true }
  | .ret => { s with calls := s.calls.dropTop }
  | .call _ => { s with calls := s.calls.putTop s.pc }
  | .setByte x b => s.setV x b
  | .addByte x b => s.setV x (s.v.get x + b)
  | .copy x y => s.setV x (s.v.get y)
  | .or x y => s.setV x (s.v.get x ||| s.v.get y)
  | .and x y => s.setV x (s.v.get x &&& s.v.get y)
  | .xor x y => s.setV x (s.v.get x ^^^ s.v.get y)
  | .add x y =>
    s.setFlagged x (s.v.get x + s.v.get y) (decide ((s.v.get x).toNat + (s.v.get y).toNat > 255))
  | .sub x y => s.setFlagged x (s.v.get x - s.v.get y) (decide (s.v.get y ≤ s.v.get x))
  | .shiftRight x _ => s.setFlagged x (s.v.get x >>> 1) ((s.v.get x).toNat.testBit 0)
  | .subFrom x y => s.setFlagged x (s.v.get y - s.v.get x) (decide (s.v.get x ≤ s.v.get y))
  | .shiftLeft x _ => s.setFlagged x (s.v.get x <<< 1) ((s.v.get x).toNat.testBit 7)
  | .setIndex target => { s with index := UInt16.ofNat target.val }
  | .random x mask => s.setV x (byte &&& mask)
  | .draw x y rows => drawn wrap s (s.v.get x) (s.v.get y) rows.val
  | .readDelay x => s.setV x s.delay
  | .awaitKey x => s.setV x (UInt8.ofNat (s.keys.greatest?.getD 0).val)
  | .setDelay x => { s with delay := s.v.get x }
  | .setSound x => { s with sound := s.v.get x }
  | .addIndex x =>
    (s.moveIndex (s.v.get x).toNat).setV flagRegister
      (decide (s.index.toNat + (s.v.get x).toNat > Memory.last)).toUInt8
  | .glyph x => { s with index := UInt16.ofNat ((s.v.get x).toNat * glyphSize) }
  | .decimal x =>
    { s with memory := s.memory.store s.index.toNat (State.digits (s.v.get x)) }
  | .store x =>
    { s with memory := s.memory.store s.index.toNat (s.v.toList.take (x.val + 1)) }.moveIndex
      (x.val + 1)
  | .load x =>
    { s with v := State.withFirst s.v (s.memory.peek s.index.toNat (x.val + 1)) }.moveIndex
      (x.val + 1)
  | _ => s

/-- The state behind an instruction that completes. -/
def result (wrap : Wrap) (byte : UInt8) (s : State) (i : Instruction) : State :=
  { i.effect wrap byte s with pc := UInt16.ofNat (i.target s) }

/-! ## Putting an instruction together -/

theorem execute_eq (wrap : Wrap) (byte : UInt8) (s : State) (i : Instruction) :
    i.execute wrap byte s =
      match i.obstacle s with
      | some r => .error r
      | none => (i.effect wrap byte s).goto (i.target s) := by
  cases i with
  | ret =>
    simp only [execute, State.leave, obstacle]
    by_cases h0 : s.calls.depth = 0
    · simp only [h0, if_true]
    · by_cases h : 16 < s.calls.depth
      · simp only [h0, h, if_false, if_true, CallStack.pop_of_gt h]
        rfl
      · simp only [h0, h, if_false, CallStack.pop_of_pos h0 (Nat.le_of_not_lt h)]
        rfl
  | call target =>
    simp only [execute, State.enter, obstacle]
    by_cases h16 : s.calls.depth = 16
    · simp only [h16, if_true]
    · by_cases h : 16 < s.calls.depth
      · simp only [h16, h, if_false, if_true, CallStack.push_of_gt h]
        rfl
      · simp only [h16, h, if_false, CallStack.push_of_lt (show s.calls.depth < 16 by omega)]
        rfl
  | draw x y rows =>
    simp only [execute, State.drawSprite, obstacle, rangeObstacle, Memory.read_eq]
    split <;> rfl
  | awaitKey x =>
    cases hk : s.keys.greatest? with
    | none => simp [execute, obstacle, hk]
    | some k =>
      simp only [execute, obstacle, effect, hk, reduceCtorEq, if_false, Option.getD_some]
      rfl
  | glyph x =>
    have h : s.v[x].toNat * glyphSize < 65536 := by
      have := s.v[x].toNat_lt
      simp only [glyphSize]
      omega
    simp only [execute, exactWord, h, if_true]
    rfl
  | decimal x =>
    simp only [execute, State.writeAtIndex, obstacle, rangeObstacle, Memory.write_eq,
      State.digits, List.length_cons, List.length_nil]
    split <;> rfl
  | store x =>
    have h : (s.v.toList.take (x.val + 1)).length = x.val + 1 := by
      rw [List.length_take, Vector.length_toList]
      omega
    simp only [execute, State.writeAtIndex, obstacle, rangeObstacle, Memory.write_eq, h]
    split <;> rfl
  | load x =>
    simp only [execute, obstacle, rangeObstacle, Memory.read_eq]
    split <;> rfl
  | _ => rfl

/-- **An instruction completes** exactly when nothing stands in its way and the counter holds
where it goes. -/
theorem execute_eq_ok_iff {wrap : Wrap} {byte : UInt8} {s t : State} {i : Instruction} :
    i.execute wrap byte s = .ok t ↔
      i.obstacle s = none ∧ i.target s < 65536 ∧ t = i.result wrap byte s := by
  rw [execute_eq]
  cases i.obstacle s with
  | some r => simp
  | none =>
    simp only [State.goto_eq, result, true_and]
    split
    · next h => simp [h, eq_comm]
    · next h => simp [h]

/-- An instruction with nothing in its way that goes on completes behind itself. -/
theorem execute_of_goesOn {s : State} {i : Instruction} (hpc : s.pc.toNat ≤ 0xFFFD)
    (ho : i.obstacle s = none) (ht : i.target s = s.pc.toNat + 2) (wrap : Wrap) (byte : UInt8) :
    i.execute wrap byte s = .ok { i.effect wrap byte s with pc := s.pc + 2 } := by
  rw [execute_eq_ok_iff, result, ht, s.ofNat_behind]
  exact ⟨ho, by omega, rfl⟩

/-! ## One instruction after another -/

/-- Carries instructions out one after another; each is given the same random byte. -/
def executeAll (wrap : Wrap) (byte : UInt8) (s : State) (is : List Instruction) :
    Except Refusal State :=
  is.foldlM (fun s i => i.execute wrap byte s) s

theorem executeAll_cons {wrap : Wrap} {byte : UInt8} {s t : State} {i : Instruction}
    (h : i.execute wrap byte s = .ok t) (is : List Instruction) :
    executeAll wrap byte s (i :: is) = executeAll wrap byte t is := by
  rw [executeAll, List.foldlM_cons, h]
  rfl

/-! ## What an effect leaves alone -/

section

variable (wrap : Wrap) (byte : UInt8) (s : State) (i : Instruction)

/-- Only a return and a call change the call stack. -/
theorem effect_calls :
    (i.effect wrap byte s).calls =
      match i with
      | .ret => s.calls.dropTop
      | .call _ => s.calls.putTop s.pc
      | _ => s.calls := by
  cases i <;> simp only [effect, drawn, State.setV, State.setFlagged, State.moveIndex]

/-- None touches the keypad. -/
theorem effect_keys : (i.effect wrap byte s).keys = s.keys := by
  cases i <;> simp only [effect, drawn, State.setV, State.setFlagged, State.moveIndex]

theorem effect_delay :
    (i.effect wrap byte s).delay =
      match i with
      | .setDelay x => s.v.get x
      | _ => s.delay := by
  cases i <;> simp only [effect, drawn, State.setV, State.setFlagged, State.moveIndex]

theorem effect_sound :
    (i.effect wrap byte s).sound =
      match i with
      | .setSound x => s.v.get x
      | _ => s.sound := by
  cases i <;> simp only [effect, drawn, State.setV, State.setFlagged, State.moveIndex]

end

end Instruction

end Chip8VM
