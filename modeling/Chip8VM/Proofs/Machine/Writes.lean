import Chip8VM.Proofs.Machine.Change

/-!
# What memory holds

Three things put bytes into memory: a load, `FX33` and `FX55`. `Operation.write?` reads off the
reply of an operation what it wrote, and `Operation.memory_apply` says that this is all that happens
to memory but for a reset. So memory can be told from the writes since the last reset alone
(`Memory.Records`, kept by every operation): at each address stands the byte of the latest write
that covers it, and the byte of power-on if there is none.
-/

set_option autoImplicit false

namespace Chip8VM

/-- Bytes that were put into memory from an address on. -/
structure Write where
  address : Nat
  bytes : List UInt8
deriving DecidableEq, Repr

namespace Write

/-- The byte that a write puts at an address, if it covers it. -/
def byteAt? (w : Write) (a : Nat) : Option UInt8 :=
  if w.address ≤ a then w.bytes[a - w.address]? else none

/-- The byte that the latest write put at an address, the writes standing oldest first. -/
def latest? (ws : List Write) (a : Nat) : Option UInt8 := ws.reverse.findSome? (·.byteAt? a)

theorem latest?_concat (ws : List Write) (w : Write) (a : Nat) :
    latest? (ws ++ [w]) a = (w.byteAt? a).or (latest? ws a) := by
  rw [latest?, List.reverse_concat, List.findSome?_cons, latest?]
  cases w.byteAt? a <;> rfl

end Write

namespace Memory

/-- Memory after a write, if there is one. -/
def put (m : Memory) : Option Write → Memory
  | some w => m.store w.address w.bytes
  | none => m

/-- The byte that stands at an address at power-on. -/
def initial (a : Nat) : UInt8 := (font[a]?).getD 0

theorem initial_eq (a : Nat) : initial a = if h : a < 0x50 then font[a] else 0 := by
  unfold initial
  split
  · next h => rw [List.getElem?_eq_getElem h, Option.getD_some]
  · next h => rw [List.getElem?_eq_none (Nat.le_of_not_lt h), Option.getD_none]

/-- At each address stands the byte of the latest of the writes, or the byte of power-on. -/
def Records (ws : List Write) (m : Memory) : Prop :=
  ∀ a (h : a < 4096), m.bytes[a] = (Write.latest? ws a).getD (initial a)

theorem getElem_store_write (m : Memory) (w : Write) {a : Nat} (h : a < 4096) :
    (m.store w.address w.bytes).bytes[a] = (w.byteAt? a).getD m.bytes[a] := by
  rw [getElem_store, Write.byteAt?]
  by_cases ha : w.address ≤ a
  · rw [if_pos ha]
    by_cases hlt : a < w.address + w.bytes.length
    · have hk : a - w.address < w.bytes.length := by omega
      rw [dif_pos ⟨ha, hlt⟩, List.getElem?_eq_getElem hk, Option.getD_some]
    · have hk : w.bytes.length ≤ a - w.address := by omega
      rw [dif_neg fun hc => hlt hc.2, List.getElem?_eq_none hk, Option.getD_none]
  · rw [if_neg ha, dif_neg fun hc => ha hc.1, Option.getD_none]

theorem records_powerOn : powerOn.Records [] := by
  intro a h
  have hzero : zero.bytes[a] = 0 := by rw [zero, Vector.getElem_replicate]
  rw [powerOn, getElem_store_write zero ⟨0, font⟩ h, hzero]
  rfl

theorem Records.put {ws : List Write} {m : Memory} (h : m.Records ws) (w : Option Write) :
    (m.put w).Records (ws ++ w.toList) := by
  cases w with
  | none => simpa [Memory.put] using h
  | some w =>
    intro a ha
    rw [Option.toList_some, Write.latest?_concat, Memory.put, getElem_store_write m w ha, h a ha]
    cases w.byteAt? a <;> rfl

end Memory

/-! ## One instruction -/

/-- What an instruction that completes puts into memory. -/
def Instruction.write? (s : State) : Instruction → Option Write
  | .decimal x => some ⟨s.index.toNat, State.digits (s.v.get x)⟩
  | .store x => some ⟨s.index.toNat, s.v.toList.take (x.val + 1)⟩
  | _ => none

/-- What the instruction of a word puts into memory, `FX33` and `FX55` being the ones that do. -/
def Word.write? (w : Word) (s : State) : Option Write :=
  if w.nibble 3 = 0xF ∧ w.low = 0x33 then
    some ⟨s.index.toNat, State.digits (s.v.get w.x)⟩
  else if w.nibble 3 = 0xF ∧ w.low = 0x55 then
    some ⟨s.index.toNat, s.v.toList.take (w.x.val + 1)⟩
  else none

namespace Instruction

theorem write?_encode (i : Instruction) (s : State) : i.encode.write? s = i.write? s := by
  cases i with
  | clear | ret => rfl
  | _ =>
    simp [Word.write?, write?, encode, Word.nibble_three_ofNibbles, Word.nibble_three_ofAddress,
      Word.nibble_three_ofByte, Word.x_ofByte, Word.low_ofByte]

theorem effect_memory (wrap : Wrap) (byte : UInt8) (s : State) (i : Instruction) :
    (i.effect wrap byte s).memory = s.memory.put (i.write? s) := by
  cases i <;> rfl

/-- The bytes fit, or the instruction would not complete. -/
theorem write?_fits {i : Instruction} {s : State} (h : i.obstacle s = none) {w : Write}
    (hw : i.write? s = some w) : w.address + w.bytes.length ≤ 4096 := by
  have hrange : ∀ {len : Nat}, rangeObstacle s len = none → s.index.toNat + len ≤ 4096 := by
    intro len hn
    unfold rangeObstacle at hn
    split at hn
    · cases hn
    · omega
  cases i with
  | decimal x =>
    cases hw
    exact hrange h
  | store x =>
    cases hw
    have hlen : (s.v.toList.take (x.val + 1)).length = x.val + 1 := by
      rw [List.length_take, Vector.length_toList]
      omega
    rw [hlen]
    exact hrange h
  | _ => cases hw

end Instruction

theorem State.digits_spec (byte : UInt8) :
    ∃ a b c, digits byte = [a, b, c] ∧ a ≤ 9 ∧ b ≤ 9 ∧ c ≤ 9 ∧
      100 * a.toNat + 10 * b.toNat + c.toNat = byte.toNat := by
  have hlt := byte.toNat_lt
  refine ⟨byte / 100, byte / 10 % 10, byte % 10, rfl, ?_⟩
  simp only [UInt8.le_iff_toNat_le, UInt8.toNat_div, UInt8.toNat_mod, UInt8.reduceToNat]
  omega

/-! ## One operation -/

namespace Operation

/-- What an operation with the given reply put into memory. -/
def write? (s : State) : Operation → Reply → Option Write
  | .load image, .done => some ⟨0x200, image⟩
  | .loadFrom source, .done => source.readAll.toOption.map (⟨0x200, ·⟩)
  | .step, .stepped (.executed c) => c.word.write? s
  | _, _ => none

/-- The writes since the last reset after an operation with the given reply, oldest first. -/
def writesAfter (ws : List Write) (s : State) (op : Operation) (r : Reply) : List Write :=
  if op = .reset then [] else ws ++ (op.write? s r).toList

/-- The writes of a history since its last reset, oldest first, behind the writes `ws` made before
it. -/
def writes (m : Machine) (u : Supply) (ws : List Write) : List Operation → List Write
  | [] => ws
  | op :: rest =>
    let a := op.apply m u
    writes a.machine a.supply (op.writesAfter ws m.state a.reply) rest

/-- A load puts the whole image into memory, where it fits, or it fails. -/
theorem load_cases (m : Machine) (image : List UInt8) :
    m.load image = .ok (m.loaded image) ∧ 0x200 + image.length ≤ 4096 ∨
      ∃ e, m.load image = .error e := by
  rw [Machine.load_eq]
  split
  · exact .inr ⟨_, rfl⟩
  · exact .inl ⟨rfl, by omega⟩

/-- **What an operation does to memory**: it writes what its reply says, which fits. -/
theorem memory_apply (m : Machine) (u : Supply) {op : Operation} (hr : op ≠ .reset) :
    (op.apply m u).machine.state.memory =
        m.state.memory.put (op.write? m.state (op.apply m u).reply) ∧
      ∀ w, op.write? m.state (op.apply m u).reply = some w →
        w.address + w.bytes.length ≤ 4096 := by
  have hc : op ≠ .step → m.Change op (op.apply m u).machine := change m u
  cases op with
  | reset => exact absurd rfl hr
  | step =>
    have ho := m.step_outcome u
    simp only [apply]
    generalize m.step u = a at ho ⊢
    cases ho with
    | @executed i _ hat hn =>
      -- The cycle tells the word that was executed, and the word what it wrote.
      have hw : write? m.state .step (.stepped (m.executed u i).reply) = i.write? m.state :=
        i.write?_encode m.state
      rw [hw]
      exact ⟨i.effect_memory m.wrap u.peek m.state, fun w => i.write?_fits hn⟩
    | @refused i r => cases r <;> exact ⟨rfl, fun w hw => by cases hw⟩
    | _ => exact ⟨rfl, fun w hw => by cases hw⟩
  | load image =>
    obtain ⟨hok, hfits⟩ | ⟨e, herr⟩ := load_cases m image
    · rw [apply, hok]
      exact ⟨rfl, fun w hw => Option.some.inj hw ▸ hfits⟩
    · rw [apply, herr]
      exact ⟨rfl, fun w hw => by cases hw⟩
  | loadFrom source =>
    simp only [apply, Machine.loadFrom]
    cases hi : source.readAll with
    | error reason => exact ⟨rfl, fun w hw => by cases hw⟩
    | ok image =>
      simp only [Except.mapError, bind, Except.bind]
      obtain ⟨hok, hfits⟩ | ⟨e, herr⟩ := load_cases m image
      · rw [hok]
        simp only [settle, Reply.ofExcept, write?, hi, Except.toOption, Option.map_some]
        exact ⟨rfl, fun w hw => Option.some.inj hw ▸ hfits⟩
      · rw [herr]
        exact ⟨rfl, fun w hw => by cases hw⟩
  | _ =>
    -- Nothing else touches memory.
    refine ⟨?_, fun w hw => by cases hw⟩
    have hc := hc (by simp)
    generalize (apply m u _).machine = m' at hc ⊢
    cases hc <;> rfl

theorem fits_writesAfter {m : Machine} {u : Supply} {op : Operation} {ws : List Write}
    (h : ∀ w ∈ ws, w.address + w.bytes.length ≤ 4096) :
    ∀ w ∈ op.writesAfter ws m.state (op.apply m u).reply, w.address + w.bytes.length ≤ 4096 := by
  unfold writesAfter
  split
  · exact nofun
  · next hr =>
    intro w hw
    rcases List.mem_append.1 hw with hw | hw
    · exact h w hw
    · exact (memory_apply m u hr).2 w (Option.mem_toList.1 hw)

theorem records_apply {m : Machine} {ws : List Write} (h : m.state.memory.Records ws) (u : Supply)
    (op : Operation) :
    (op.apply m u).machine.state.memory.Records
      (op.writesAfter ws m.state (op.apply m u).reply) := by
  unfold writesAfter
  split
  · next hr =>
    rw [hr]
    exact Memory.records_powerOn
  · next hr =>
    rw [(memory_apply m u hr).1]
    exact h.put _

/-! ## A history -/

/-- **Memory records the writes since the last reset**, each of which fits. -/
theorem records_run {m : Machine} {ws : List Write} (h : m.state.memory.Records ws)
    (hfits : ∀ w ∈ ws, w.address + w.bytes.length ≤ 4096) (u : Supply) (ops : List Operation) :
    (run m u ops).machine.state.memory.Records (writes m u ws ops) ∧
      ∀ w ∈ writes m u ws ops, w.address + w.bytes.length ≤ 4096 := by
  induction ops generalizing m u ws with
  | nil => exact ⟨h, hfits⟩
  | cons op ops ih => exact ih (records_apply h u op) (fits_writesAfter hfits) _

end Operation

/-- **The last write wins.** In every history of a new machine, at each address of memory stands
the byte that the latest of the writes since the last reset put there that covers the address, or
the byte of power-on if there is none: the font below `0x50` and zeros above. Every write fits into
memory. An operation other than a reset does to memory what its reply says and nothing else: a load
that succeeded puts its image at `0x200`, an executed `FX33` the three digits of `VX` at `I`, an
executed `FX55` the registers `V0` to `VX` at `I`, as they were before. -/
theorem last_write_wins (wrap : Wrap) (u : Supply) (ops : List Operation) :
    let m := (Operation.run (.new wrap) u ops).machine
    let ws := Operation.writes (.new wrap) u [] ops
    (∀ a (h : a < 4096), m.state.memory.bytes[a] =
      (Write.latest? ws a).getD (if h : a < 0x50 then font[a] else 0)) ∧
    (∀ w ∈ ws, w.address + w.bytes.length ≤ 4096) ∧
    (∀ (u' : Supply) (op : Operation), op ≠ .reset →
      (op.apply m u').machine.state.memory =
        m.state.memory.put (op.write? m.state (op.apply m u').reply)) ∧
    ∀ byte, ∃ a b c, State.digits byte = [a, b, c] ∧ a ≤ 9 ∧ b ≤ 9 ∧ c ≤ 9 ∧
      100 * a.toNat + 10 * b.toNat + c.toNat = byte.toNat := by
  intro m ws
  obtain ⟨hrecords, hfits⟩ :=
    Operation.records_run (m := .new wrap) Memory.records_powerOn nofun u ops
  refine ⟨fun a h => ?_, hfits, fun u' op hr => (Operation.memory_apply m u' hr).1,
    State.digits_spec⟩
  rw [← Memory.initial_eq]
  exact hrecords a h

/-- The digits of `123` are written over, the first of them by `FX55`, and an image that is too
large writes nothing. -/
theorem last_write_wins_over_digits :
    let ops : List Operation :=
      [.load [0x60, 0x7B, 0xA2, 0x09, 0xF0, 0x33, 0xF0, 0x55], .step, .step, .step, .step,
        .load (List.replicate 3585 0xAB)]
    let m := (Operation.run (.new .flat) (.ofSeed 1) ops).machine
    (Operation.tick ≠ .reset ∧ 0x20A < 4096) ∧ m.state.memory.bytes[0x209] = 0x7B ∧
      m.state.memory.bytes[0x20A] = 2 ∧ m.state.memory.bytes[0x005] = 0x20 := by
  intro ops m
  obtain ⟨hbytes, -⟩ := last_write_wins .flat (.ofSeed 1) ops
  have hws : Operation.writes (.new .flat) (.ofSeed 1) [] ops =
      [⟨0x200, [0x60, 0x7B, 0xA2, 0x09, 0xF0, 0x33, 0xF0, 0x55]⟩, ⟨0x209, [1, 2, 3]⟩,
        ⟨0x209, [0x7B]⟩] := by
    decide +kernel
  rw [hws] at hbytes
  refine ⟨⟨nofun, by decide⟩, ?_, ?_, ?_⟩
  · rw [hbytes 0x209 (by decide)]
    decide +kernel
  · rw [hbytes 0x20A (by decide)]
    decide +kernel
  · rw [hbytes 0x005 (by decide)]
    decide +kernel

end Chip8VM
