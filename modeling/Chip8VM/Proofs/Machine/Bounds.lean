import Chip8VM.Proofs.Instruction.Drawing
import Chip8VM.Proofs.Machine.Run

/-!
# No machine ever breaks down

The counter and the call stack of every reachable machine stay within bounds (`State.Bounded`): at
most sixteen addresses are live, every slot holds the address of a call and so one of a whole word
in memory, and the counter is at most `0x10FE`, the farthest that a jump into a table goes.

The arithmetic of the machine and its accesses to arrays are not checked where they are made. What
each of them takes for granted is a `Demand`; `Instruction.demands` and `Operation.demands` list
the demands in the order in which they arise, leaving out those behind a test that fails. That the
tests are those of the functions shows in what the functions give (`mem_demands_tick_iff` and its
like). Within the bounds all demands are met, so that nothing the machine does can trap.
-/

set_option autoImplicit false

namespace Chip8VM

/-! ## The bounds -/

/-- The counter and the call stack are within bounds. -/
structure State.Bounded (s : State) : Prop where
  depth : s.calls.depth ≤ 16
  slots : ∀ a ∈ s.calls.slots, a.toNat ≤ 0xFFE
  pc : s.pc.toNat ≤ 0x10FE

namespace CallStack

theorem top_le {s : CallStack} {bound : Nat} (h : ∀ a ∈ s.slots, a.toNat ≤ bound) :
    s.top.toNat ≤ bound := by
  unfold top
  cases ht : s.entries.getLast? with
  | none => exact Nat.zero_le _
  | some a =>
    have hm : a ∈ s.slots.toList := List.mem_of_mem_take (List.mem_of_getLast? ht)
    exact h a (Vector.mem_toList_iff.1 hm)

theorem slots_putTop_le {s : CallStack} {address : Word} {bound : Nat}
    (h : ∀ a ∈ s.slots, a.toNat ≤ bound) (ha : address.toNat ≤ bound) :
    ∀ a ∈ (s.putTop address).slots, a.toNat ≤ bound := by
  intro a hm
  obtain ⟨k, hk, rfl⟩ := Vector.mem_iff_getElem.1 hm
  simp only [putTop, Vector.getElem_setIfInBounds]
  split
  · exact ha
  · exact h _ (Vector.getElem_mem hk)

end CallStack

namespace Instruction

theorem depth_lt_of_call {s : State} {target : Fin 4096} (h : (call target).obstacle s = none) :
    s.calls.depth < 16 := by
  simp only [obstacle] at h
  split at h
  · cases h
  · split at h
    · cases h
    · omega

/-- Where an instruction goes from within memory. -/
theorem target_le {s : State} (hs : s.Bounded) (hpc : s.pc.toNat < 0xFFF) (i : Instruction) :
    i.target s ≤ 0x10FE := by
  cases i with
  | ret =>
    have := CallStack.top_le hs.slots
    simp only [target]
    omega
  | jumpPlus target =>
    have := s.v0.toNat_lt
    simp only [Instruction.target]
    omega
  | jump target => simp only [Instruction.target]; omega
  | call target => simp only [Instruction.target]; omega
  | _ => simp only [target]; split <;> omega

/-- **What one instruction preserves**: the bounds. -/
theorem bounded_result {s : State} (hs : s.Bounded) {i : Instruction} (hat : s.At i)
    (ho : i.obstacle s = none) (wrap : Wrap) (byte : UInt8) : (i.result wrap byte s).Bounded := by
  have hpc : (UInt16.ofNat (i.target s)).toNat ≤ 0x10FE := by
    have := target_le hs hat.1 i
    rw [UInt16.toNat_ofNat']
    omega
  have hcalls : (i.result wrap byte s).calls = (i.effect wrap byte s).calls := rfl
  rw [effect_calls] at hcalls
  cases i with
  | ret =>
    refine ⟨?_, ?_, hpc⟩ <;> rw [hcalls]
    · exact Nat.le_trans (Nat.sub_le _ _) hs.depth
    · exact hs.slots
  | call target =>
    refine ⟨?_, ?_, hpc⟩ <;> rw [hcalls]
    · exact depth_lt_of_call ho
    · exact CallStack.slots_putTop_le hs.slots (Nat.le_of_lt_succ hat.1)
  | _ =>
    refine ⟨?_, ?_, hpc⟩ <;> rw [hcalls]
    · exact hs.depth
    · exact hs.slots

end Instruction

theorem State.bounded_powerOn : powerOn.Bounded where
  depth := Nat.zero_le _
  slots a ha := by
    rw [Vector.eq_of_mem_replicate ha]
    exact Nat.zero_le _
  pc := by decide

theorem Machine.bounded_step {m : Machine} (hm : m.state.Bounded) (u : Supply) :
    (m.step u).machine.state.Bounded := by
  have ho := m.step_outcome u
  generalize m.step u = a at ho
  cases ho with
  | executed _ hat ho _ => exact Instruction.bounded_result hm hat ho _ _
  | _ => exact hm

/-- **What one operation preserves**: the bounds. -/
theorem Operation.bounded_apply {m : Machine} (hm : m.state.Bounded) (u : Supply)
    (op : Operation) : (op.apply m u).machine.state.Bounded := by
  by_cases hs : op = .step
  · subst hs
    exact m.bounded_step hm u
  by_cases hr : op = .reset
  · subst hr
    exact State.bounded_powerOn
  have hc := sameCore_apply m u hs hr
  refine ⟨?_, ?_, ?_⟩
  · rw [hc.calls]; exact hm.depth
  · rw [hc.calls]; exact hm.slots
  · rw [hc.pc]; exact hm.pc

theorem Operation.bounded_run {m : Machine} (hm : m.state.Bounded) (u : Supply)
    (ops : List Operation) : (run m u ops).machine.state.Bounded := by
  induction ops generalizing m u with
  | nil => exact hm
  | cons op ops ih => exact ih (bounded_apply hm u op) _

theorem Reachable.bounded {m : Machine} (h : Reachable m) : m.state.Bounded := by
  induction h with
  | new wrap => exact State.bounded_powerOn
  | apply _ u op ih => exact Operation.bounded_apply ih u op

/-! ## What is taken for granted -/

/-- Something that arithmetic or an access to an array takes for granted. -/
inductive Demand where
  /-- The array has an element with this index. -/
  | index (i length : Nat)
  /-- The array has `len` elements from this address on. -/
  | range (address len length : Nat)
  /-- A sum or product can be written with so many bits. -/
  | fits (n bits : Nat)
  /-- The difference `a - b` is not negative. -/
  | difference (a b : Nat)
deriving DecidableEq, Repr

namespace Demand

/-- Whether a demand is met. -/
def Met : Demand → Prop
  | .index i length => i < length
  | .range address len length => address + len ≤ length
  | .fits n bits => n < Nat.pow 2 bits
  | .difference a b => b ≤ a

/-- The least width of a number that is an index or an address. -/
def addressBits : Nat := 32

end Demand

namespace Instruction

/-- The registers that an instruction reads or writes by their numbers. -/
def registers : Instruction → List Register
  | .skipEqByte x _ | .skipNeByte x _ | .setByte x _ | .addByte x _ | .random x _ => [x]
  | .skipDown x | .skipUp x | .readDelay x | .awaitKey x | .setDelay x | .setSound x => [x]
  | .glyph x | .decimal x => [x]
  | .skipEq x y | .skipNe x y | .copy x y | .or x y | .and x y | .xor x y => [x, y]
  | .add x y | .sub x y | .subFrom x y | .draw x y _ => [x, y, flagRegister]
  | .shiftRight x _ | .shiftLeft x _ | .addIndex x => [x, flagRegister]
  | .jumpPlus _ => [0]
  | .clear | .ret | .jump _ | .call _ | .setIndex _ | .store _ | .load _ => []

/-- The demands of an access to `len` bytes at `I`, which is made only if they are in memory. -/
def rangeDemands (s : State) (len : Nat) : List Demand :=
  .fits (s.index.toNat + len) Demand.addressBits ::
    if s.index.toNat + len > 4096 then [] else [.range s.index.toNat len 4096]

/-- The demands of the pixels of a sprite whose corner is in column `x` of row `y`. -/
def pixelDemands (wrap : Wrap) (x y rows : Nat) : List Demand :=
  (List.range rows).flatMap fun row => (List.range 8).flatMap fun col =>
    [.fits (x + col) Demand.addressBits, .fits (y + row) Demand.addressBits,
     .fits (x + col + (y + row) * 64) Demand.addressBits,
     .index (wrap.index (x + col) (y + row)) 2048]

/-- What an instruction takes for granted besides its registers and the counter. -/
def ownDemands (wrap : Wrap) (s : State) : Instruction → List Demand
  | .ret =>
    if s.calls.depth = 0 then []
    else [.difference s.calls.depth 1, .index (s.calls.depth - 1) 16]
  | .call _ =>
    if s.calls.depth = 16 then []
    else [.index s.calls.depth 16, .fits (s.calls.depth + 1) Demand.addressBits]
  | .add x _ => [.difference 255 (s.v.get x).toNat]
  | .draw x y rows =>
    rangeDemands s rows.val ++
      if s.index.toNat + rows.val > 4096 then []
      else pixelDemands wrap (s.v.get x).toNat (s.v.get y).toNat rows.val
  | .addIndex x => [.fits (s.index.toNat + (s.v.get x).toNat) 32]
  | .glyph x => [.fits ((s.v.get x).toNat * glyphSize) 16]
  | .decimal _ => rangeDemands s 3
  | .store x => .range 0 (x.val + 1) 16 :: rangeDemands s (x.val + 1)
  | .load x => .range 0 (x.val + 1) 16 :: rangeDemands s (x.val + 1)
  | _ => []

/-- What an instruction takes for granted. -/
def demands (wrap : Wrap) (s : State) (i : Instruction) : List Demand :=
  i.registers.map (.index ·.val 16) ++ i.ownDemands wrap s ++
    if i.obstacle s = none then [.fits (i.target s) 16] else []

end Instruction

namespace Operation

/-- The demands of putting a program into memory, which is done only if it is not too large. -/
def loadDemands (image : List UInt8) : List Demand :=
  if image.length > Memory.maxProgram then []
  else
    [.fits (Memory.programStart + image.length) Demand.addressBits,
     .range Memory.programStart image.length 4096]

/-- The demands of finding a key, which is done only if there is such a key. -/
def keyDemands (key : UInt8) : List Demand :=
  if key.toNat < 16 then [.index key.toNat 16] else []

/-- What an operation takes for granted. -/
def demands (m : Machine) : Operation → List Demand
  | .load image => loadDemands image
  | .loadFrom source => source.readAll.toOption.elim [] loadDemands
  | .step =>
    if m.paused then []
    else
      .fits (m.state.pc.toNat + 2) Demand.addressBits ::
        match m.state.fetch with
        | .error _ => []
        | .ok word =>
          .range m.state.pc.toNat 2 4096 ::
            (Instruction.decode? word).elim [] (·.demands m.wrap m.state)
  | .tick => if m.paused ∨ m.state.sound = 0 then [] else [.difference m.state.sound.toNat 1]
  | .press key | .release key | .isKeyDown key => keyDemands key
  | _ => []

end Operation

/-! ## The lists and the functions

The tests behind which a demand is left out are those of the functions themselves: a function makes
the demand exactly if it gets past its own test, which shows in what it gives. -/

theorem State.goto_ne_fault (s : State) (address : Nat) (f : Fault) :
    s.goto address ≠ .error (.fault f) := by
  rw [goto_eq]
  split <;> exact nofun

/-- What comes of the call stack is no fault of the program. -/
theorem State.goto_behind_ne_fault {α : Type} (r : Except Trap α) (next : α → State)
    (address : α → Nat) (f : Fault) :
    (r.mapError Refusal.trap >>= fun a => (next a).goto (address a)) ≠ .error (.fault f) := by
  cases r with
  | error t => exact nofun
  | ok a => exact goto_ne_fault _ _ _

namespace Instruction

variable {s : State}

/-- Bytes at `I` are asked for exactly if they can be read. -/
theorem range_mem_rangeDemands_read_iff {len : Nat} :
    .range s.index.toNat len 4096 ∈ rangeDemands s len ↔
      ∃ bytes, s.memory.read s.index.toNat len = .ok bytes := by
  rw [rangeDemands, Memory.read_eq]
  split <;> simp

/-- Bytes at `I` are asked for exactly if they can be written. -/
theorem range_mem_rangeDemands_write_iff {bytes : List UInt8} :
    .range s.index.toNat bytes.length 4096 ∈ rangeDemands s bytes.length ↔
      ∃ memory, s.memory.write s.index.toNat bytes = .ok memory := by
  rw [rangeDemands, Memory.write_eq]
  split <;> simp

/-- Every cell that a draw changes over is asked for. -/
theorem index_mem_pixelDemands {wrap : Wrap} {x y : Nat} {sprite : List UInt8} {cell : Cell}
    (h : cell ∈ Sprite.cells wrap x y sprite) :
    .index cell.val 2048 ∈ pixelDemands wrap x y sprite.length := by
  obtain ⟨row, col, hrow, hcol, -, rfl⟩ := Sprite.mem_cells.1 h
  refine List.mem_flatMap.2 ⟨row, List.mem_range.2 hrow, List.mem_flatMap.2
    ⟨col, List.mem_range.2 hcol, ?_⟩⟩
  simp [Wrap.cell]

/-- A call asks for its slot exactly if the stack does not overflow. -/
theorem ownDemands_call_ne_nil_iff (wrap : Wrap) (target : Fin 4096) :
    (call target).ownDemands wrap s ≠ [] ↔
      s.enter target.val ≠ .error (.fault (.stackOverflow s.pc)) := by
  rw [ownDemands, State.enter]
  split
  · simp
  · have hpush := State.goto_behind_ne_fault (s.calls.push s.pc) (fun calls => { s with calls })
      (fun _ => target.val) (.stackOverflow s.pc)
    exact iff_of_true (List.cons_ne_nil _ _) hpush

/-- A return asks for its slot exactly if the stack does not underflow. -/
theorem ownDemands_ret_ne_nil_iff (wrap : Wrap) :
    ret.ownDemands wrap s ≠ [] ↔ s.leave ≠ .error (.fault (.stackUnderflow s.pc)) := by
  rw [ownDemands, State.leave]
  split
  · simp
  · have hpop := State.goto_behind_ne_fault s.calls.pop (fun p => { s with calls := p.2 })
      (fun p => p.1.toNat + 2) (.stackUnderflow s.pc)
    exact iff_of_true (List.cons_ne_nil _ _) hpop

end Instruction

/-- A byte that is not zero can be counted down. -/
theorem toNat_sub_one_add_one {b : UInt8} (h : b ≠ 0) : (b - 1).toNat + 1 = b.toNat := by
  have hpos : 0 < b.toNat := Nat.pos_of_ne_zero fun h0 => h (UInt8.toNat_inj.1 h0)
  rw [UInt8.toNat_sub_of_le b 1 hpos]
  exact Nat.sub_add_cancel hpos

namespace Operation

variable (m : Machine)

/-- A tick asks for the difference exactly if it counts the sound timer down, and by one. -/
theorem mem_demands_tick_iff {d : Demand} :
    d ∈ demands m .tick ↔ d = .difference m.state.sound.toNat 1 ∧
      m.tick.2.state.sound.toNat + 1 = m.state.sound.toNat := by
  simp only [demands, Machine.tick]
  cases m.paused with
  | true => simp
  | false =>
    by_cases h : m.state.sound = 0
    · simp [h]
    · simp [h, toNat_sub_one_add_one h]

/-- A program's place in memory is asked for exactly if it is loaded. -/
theorem loadDemands_ne_nil_iff (image : List UInt8) :
    loadDemands image ≠ [] ↔ ∃ m', m.load image = .ok m' := by
  rw [Machine.load_eq, loadDemands, Memory.maxProgram]
  split <;> simp

/-- A key is asked for exactly if it can be put down or up. -/
theorem keyDemands_ne_nil_iff (key : UInt8) (down : Bool) :
    keyDemands key ≠ [] ↔ ∃ m', m.setKey key down = .ok m' := by
  rw [Machine.setKey_eq, keyDemands]
  split <;> simp

/-- A key is asked for exactly if it can be found down. -/
theorem keyDemands_ne_nil_iff_isDown (key : UInt8) :
    keyDemands key ≠ [] ↔ ∃ p : Keypad, p.isDown key.toNat = true := by
  rw [keyDemands]
  split
  · next h =>
    refine iff_of_true (List.cons_ne_nil _ _) ⟨Keypad.idle.set ⟨key.toNat, h⟩ true, ?_⟩
    rw [Keypad.isDown_set, if_pos rfl]
  · next h =>
    refine iff_of_false (fun hne => hne rfl) fun ⟨p, hp⟩ => ?_
    rw [Keypad.isDown_of_ge p (Nat.le_of_not_lt h)] at hp
    cases hp

end Operation

/-! ## All of it is granted -/

namespace Instruction

theorem rangeDemands_met (s : State) {len : Nat} (h : len ≤ 16) :
    ∀ d ∈ rangeDemands s len, d.Met := by
  have := s.index.toNat_lt
  refine List.forall_mem_cons.2 ⟨?_, ?_⟩
  · show s.index.toNat + len < 2 ^ 32
    omega
  · split
    · exact fun _ hd => nomatch hd
    · next hlen => exact List.forall_mem_singleton.2 (Nat.le_of_not_lt hlen)

theorem pixelDemands_met (wrap : Wrap) (x y : UInt8) (rows : Fin 16) :
    ∀ d ∈ pixelDemands wrap x.toNat y.toNat rows.val, d.Met := by
  intro d hd
  have hx := x.toNat_lt
  have hy := y.toNat_lt
  simp only [pixelDemands, List.mem_flatMap, List.mem_range, List.mem_cons, List.not_mem_nil,
    or_false] at hd
  obtain ⟨row, hrow, col, hcol, rfl | rfl | rfl | rfl⟩ := hd
  · show x.toNat + col < 2 ^ 32
    omega
  · show y.toNat + row < 2 ^ 32
    omega
  · show x.toNat + col + (y.toNat + row) * 64 < 2 ^ 32
    omega
  · exact wrap.index_lt _ _

theorem ownDemands_met {s : State} (hs : s.Bounded) (wrap : Wrap) (i : Instruction) :
    ∀ d ∈ i.ownDemands wrap s, d.Met := by
  have hdepth := hs.depth
  cases i with
  | ret =>
    simp only [ownDemands]
    split
    · exact fun _ hd => nomatch hd
    · refine List.forall_mem_cons.2 ⟨?_, List.forall_mem_singleton.2 ?_⟩
      · show 1 ≤ s.calls.depth
        omega
      · show s.calls.depth - 1 < 16
        omega
  | call target =>
    simp only [ownDemands]
    split
    · exact fun _ hd => nomatch hd
    · refine List.forall_mem_cons.2 ⟨?_, List.forall_mem_singleton.2 ?_⟩
      · show s.calls.depth < 16
        omega
      · show s.calls.depth + 1 < 2 ^ 32
        omega
  | add x y =>
    have := (s.v.get x).toNat_lt
    refine List.forall_mem_singleton.2 ?_
    show (s.v.get x).toNat ≤ 255
    omega
  | draw x y rows =>
    intro d hd
    rcases List.mem_append.1 hd with hd | hd
    · exact rangeDemands_met s (by omega) d hd
    · split at hd
      · cases hd
      · exact pixelDemands_met wrap _ _ rows d hd
  | addIndex x =>
    have := (s.v.get x).toNat_lt
    have := s.index.toNat_lt
    refine List.forall_mem_singleton.2 ?_
    show s.index.toNat + (s.v.get x).toNat < 2 ^ 32
    omega
  | glyph x =>
    have := (s.v.get x).toNat_lt
    refine List.forall_mem_singleton.2 ?_
    show (s.v.get x).toNat * 5 < 2 ^ 16
    omega
  | decimal x => exact rangeDemands_met s (by decide)
  | store x =>
    refine List.forall_mem_cons.2 ⟨?_, rangeDemands_met s (by omega)⟩
    show 0 + (x.val + 1) ≤ 16
    omega
  | load x =>
    refine List.forall_mem_cons.2 ⟨?_, rangeDemands_met s (by omega)⟩
    show 0 + (x.val + 1) ≤ 16
    omega
  | _ => exact fun _ hd => nomatch hd

theorem demands_met {s : State} (hs : s.Bounded) (hpc : s.pc.toNat < 0xFFF) (wrap : Wrap)
    (i : Instruction) : ∀ d ∈ i.demands wrap s, d.Met := by
  intro d hd
  simp only [demands, List.mem_append, List.mem_map] at hd
  rcases hd with (⟨x, -, rfl⟩ | hd) | hd
  · exact x.isLt
  · exact ownDemands_met hs wrap i d hd
  · split at hd
    · rw [List.mem_singleton.1 hd]
      show i.target s < 2 ^ 16
      have := target_le hs hpc i
      omega
    · cases hd

end Instruction

namespace Operation

theorem loadDemands_met (image : List UInt8) : ∀ d ∈ loadDemands image, d.Met := by
  unfold loadDemands
  split
  · exact fun _ hd => nomatch hd
  · next h =>
    simp only [Memory.maxProgram] at h
    refine List.forall_mem_cons.2 ⟨?_, List.forall_mem_singleton.2 ?_⟩
    · show 0x200 + image.length < 2 ^ 32
      omega
    · show 0x200 + image.length ≤ 4096
      omega

theorem keyDemands_met (key : UInt8) : ∀ d ∈ keyDemands key, d.Met := by
  unfold keyDemands
  split
  · next h => exact List.forall_mem_singleton.2 h
  · exact fun _ hd => nomatch hd

/-- Nothing a tick does to the timers goes below zero. -/
theorem tickDemands_met (m : Machine) : ∀ d ∈ demands m .tick, d.Met := by
  intro d hd
  obtain ⟨rfl, hone⟩ := (mem_demands_tick_iff m).1 hd
  show 1 ≤ m.state.sound.toNat
  omega

theorem demands_met {m : Machine} (hm : m.state.Bounded) (op : Operation) :
    ∀ d ∈ op.demands m, d.Met := by
  cases op with
  | load image => exact loadDemands_met image
  | loadFrom source =>
    simp only [demands]
    cases source.readAll.toOption with
    | none => exact fun _ hd => nomatch hd
    | some image => exact loadDemands_met image
  | step =>
    have hpc := hm.pc
    simp only [demands]
    split
    · exact fun _ hd => nomatch hd
    · refine List.forall_mem_cons.2 ⟨?_, ?_⟩
      · show m.state.pc.toNat + 2 < 2 ^ 32
        omega
      · rw [State.fetch_eq]
        by_cases h : m.state.pc.toNat < 0xFFF
        · rw [if_pos h]
          refine List.forall_mem_cons.2 ⟨?_, ?_⟩
          · show m.state.pc.toNat + 2 ≤ 4096
            omega
          · cases Instruction.decode? m.state.word with
            | none => exact fun _ hd => nomatch hd
            | some i => exact Instruction.demands_met hm h m.wrap i
        · rw [if_neg h]
          exact fun _ hd => nomatch hd
  | tick => exact tickDemands_met m
  | press key => exact keyDemands_met key
  | release key => exact keyDemands_met key
  | isKeyDown key => exact keyDemands_met key
  | _ => exact fun _ hd => nomatch hd

end Operation

/-! ## Whatever traps was not granted something -/

/-- An instruction that traps before it does anything finds no slot on the call stack. -/
theorem Instruction.unmet_of_obstacle {s : State} {i : Instruction} {t : Trap}
    (h : i.obstacle s = some (.trap t)) (wrap : Wrap) : ∃ d ∈ i.demands wrap s, ¬ d.Met := by
  have hown : ∃ d ∈ i.ownDemands wrap s, ¬ d.Met := by
    cases i with
    | ret =>
      simp only [obstacle] at h
      split at h
      · cases h
      · next h0 =>
        split at h
        · next hd =>
          refine ⟨.index (s.calls.depth - 1) 16, ?_, ?_⟩
          · rw [ownDemands, if_neg h0]
            exact .tail _ (.head _)
          · show ¬ s.calls.depth - 1 < 16
            omega
        · cases h
    | call target =>
      simp only [obstacle] at h
      split at h
      · cases h
      · next h16 =>
        split at h
        · next hd =>
          refine ⟨.index s.calls.depth 16, ?_, ?_⟩
          · rw [ownDemands, if_neg h16]
            exact .head _
          · show ¬ s.calls.depth < 16
            omega
        · cases h
    | awaitKey x => simp only [obstacle] at h; split at h <;> cases h
    | draw x y rows => simp only [obstacle, rangeObstacle] at h; split at h <;> cases h
    | decimal x => simp only [obstacle, rangeObstacle] at h; split at h <;> cases h
    | store x => simp only [obstacle, rangeObstacle] at h; split at h <;> cases h
    | load x => simp only [obstacle, rangeObstacle] at h; split at h <;> cases h
    | _ => cases h
  obtain ⟨d, hd, hn⟩ := hown
  exact ⟨d, List.mem_append_left _ (List.mem_append_right _ hd), hn⟩

/-- A step makes the demands of the instruction at the counter. -/
theorem Operation.mem_demands_step {m : Machine} {i : Instruction} {d : Demand}
    (hp : m.paused = false) (hat : m.state.At i) (hd : d ∈ i.demands m.wrap m.state) :
    d ∈ demands m .step := by
  simp only [demands, hp, hat.fetch, Instruction.decode?_encode, Option.elim_some,
    Bool.false_eq_true, if_false]
  exact .tail _ (.tail _ hd)

theorem Machine.unmet_of_trapped {m : Machine} {u : Supply} {t : Trap}
    (h : (m.step u).reply = .trapped t) : ∃ d ∈ Operation.demands m .step, ¬ d.Met := by
  have ho := m.step_outcome u
  generalize m.step u = a at ho h
  cases ho with
  | @refused i r hp hat ho =>
    cases r with
    | trap t' =>
      obtain ⟨d, hd, hn⟩ := Instruction.unmet_of_obstacle ho m.wrap
      exact ⟨d, Operation.mem_demands_step hp hat hd, hn⟩
    | awaitingKey => cases h
    | fault f => cases h
  | @overrun i hp hat ho ht =>
    refine ⟨.fits (i.target m.state) 16, Operation.mem_demands_step hp hat ?_, ?_⟩
    · rw [Instruction.demands, if_pos ho]
      exact List.mem_append_right _ List.mem_cons_self
    · exact Nat.not_lt_of_le ht
  | _ => cases h

/-- **An operation that is granted its demands does not trap**, on any machine. -/
theorem Operation.not_trapped_of_demands {m : Machine} {op : Operation}
    (hd : ∀ d ∈ op.demands m, d.Met) (u : Supply) (t : Trap) :
    (op.apply m u).reply ≠ .stepped (.trapped t) := by
  by_cases hs : op = .step
  · subst hs
    intro h
    obtain ⟨d, hmem, hn⟩ := Machine.unmet_of_trapped (Reply.stepped.inj h)
    exact hn (hd d hmem)
  · exact reply_ne_stepped m u hs _

theorem Reachable.step_ne_trapped {m : Machine} (h : Reachable m) (u : Supply) (t : Trap) :
    (m.step u).reply ≠ .trapped t := fun ht =>
  Operation.not_trapped_of_demands (Operation.demands_met h.bounded .step) u t
    (congrArg Reply.stepped ht)

/-- **No machine ever breaks down.** Whatever was done with it since power-on, the call stack and
the counter of a machine are within bounds, and no operation on it traps: every index is one of its
array, and every sum, product and difference is one of its type. -/
theorem reachable_never_breaks_down {m : Machine} (h : Reachable m) :
    m.state.calls.depth ≤ 16 ∧ (∀ a ∈ m.state.calls.slots, a.toNat ≤ 0xFFE) ∧
      m.state.pc.toNat ≤ 0x10FE ∧
      ∀ (u : Supply) (op : Operation),
        (∀ d ∈ op.demands m, d.Met) ∧ ∀ t, (op.apply m u).reply ≠ .stepped (.trapped t) := by
  have hb := h.bounded
  exact ⟨hb.depth, hb.slots, hb.pc, fun u op =>
    ⟨Operation.demands_met hb op,
      Operation.not_trapped_of_demands (Operation.demands_met hb op) u⟩⟩

/-- A machine in the middle of a program that calls itself without end. -/
theorem never_breaks_down_while_calling :
    Reachable (Operation.run (.new .flat) (.ofSeed 1)
        (.load [0x22, 0x00] :: List.replicate 100 .step)).machine ∧
      ∀ t, (Machine.step (Operation.run (.new .flat) (.ofSeed 1)
        (.load [0x22, 0x00] :: List.replicate 100 .step)).machine (.ofSeed 1)).reply ≠
          .trapped t := by
  have hr := (Reachable.new .flat).run (.ofSeed 1) (.load [0x22, 0x00] :: List.replicate 100 .step)
  exact ⟨hr, fun t ht => ((reachable_never_breaks_down hr).2.2.2 (.ofSeed 1) .step).2 t
    (congrArg Reply.stepped ht)⟩

end Chip8VM
