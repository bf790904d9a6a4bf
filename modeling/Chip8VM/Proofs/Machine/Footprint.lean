import Chip8VM.Proofs.Machine.Outcome

/-!
# What an instruction may change

A state is made of parts, and each instruction may change a few of them besides the counter:
`Instruction.touches` is the table. An instruction that completes leaves all other parts bit for bit
as they were (`Instruction.same_of_not_touches`), and so does the step that executes it.
-/

set_option autoImplicit false

namespace Chip8VM

/-- A part of the state that instructions work on; the counter is none. -/
inductive Part where
  | register (x : Register)
  | index
  | calls
  | delay
  | sound
  | memory
  | frame
  /-- Whether the screen was drawn on since the frame was last taken. -/
  | mark
  | keys
deriving DecidableEq, Repr

/-- Two states hold the same in a part. -/
def Part.Same (s t : State) : Part → Prop
  | .register x => t.v.get x = s.v.get x
  | .index => t.index = s.index
  | .calls => t.calls = s.calls
  | .delay => t.delay = s.delay
  | .sound => t.sound = s.sound
  | .memory => t.memory = s.memory
  | .frame => t.frame = s.frame
  | .mark => t.drawn = s.drawn
  | .keys => t.keys = s.keys

theorem State.get_withFirst_of_le {count : Nat} (v : Vector UInt8 16) (bytes : Vector UInt8 count)
    {r : Register} (h : count ≤ r.val) : (withFirst v bytes).get r = v.get r := by
  show (withFirst v bytes)[r.val] = v[r.val]
  rw [withFirst, Vector.getElem_ofFn, dif_neg (Nat.not_lt_of_le h)]
  rfl

namespace Instruction

/-! ## The table -/

/-- The registers that an instruction puts its result into. -/
def destination : Instruction → List Register
  | .setByte x _ | .addByte x _ | .random x _ | .readDelay x | .awaitKey x => [x]
  | .copy x _ | .or x _ | .and x _ | .xor x _ => [x]
  | .add x _ | .sub x _ | .shiftRight x _ | .subFrom x _ | .shiftLeft x _ => [x]
  | .load x => (List.finRange 16).filter (· ≤ x)
  | _ => []

/-- Whether an instruction puts a carry, a borrow, a bit shifted out or a collision into `VF`. -/
def setsFlag : Instruction → Bool
  | .add _ _ | .sub _ _ | .shiftRight _ _ | .subFrom _ _ | .shiftLeft _ _ => true
  | .draw _ _ _ | .addIndex _ => true
  | _ => false

/-- Whether an instruction may change a part of the state. -/
def touches (i : Instruction) : Part → Bool
  | .register r => r ∈ i.destination || (i.setsFlag && r == flagRegister)
  | .index => (i matches .setIndex _ | .addIndex _ | .glyph _ | .store _ | .load _)
  | .calls => (i matches .call _ | .ret)
  | .delay => (i matches .setDelay _)
  | .sound => (i matches .setSound _)
  | .memory => (i matches .decimal _ | .store _)
  | .frame | .mark => (i matches .clear | .draw _ _ _)
  | .keys => false

/-! ## One instruction -/

variable (wrap : Wrap) (byte : UInt8) (s : State)

/-- An instruction leaves the registers alone that it puts neither its result nor a flag into. -/
theorem same_register_of_not_touches {i : Instruction} {r : Register}
    (h : i.touches (.register r) = false) :
    (i.effect wrap byte s).v.get r = s.v.get r := by
  have htable : (decide (r ∈ i.destination) || (i.setsFlag && r == flagRegister)) = false := h
  rw [Bool.or_eq_false_iff, decide_eq_false_iff_not, Bool.and_eq_false_iff,
    beq_eq_false_iff_ne] at htable
  obtain ⟨hdest, hflag⟩ := htable
  cases i with
  | setByte x | addByte x | random x | readDelay x | awaitKey x | copy x | or x | and x | xor x =>
    have hne : x ≠ r := Ne.symm (List.ne_of_not_mem_cons hdest)
    simp only [effect, State.get_setV, hne, if_false]
  | add x | sub x | shiftRight x | subFrom x | shiftLeft x =>
    have hne : x ≠ r := Ne.symm (List.ne_of_not_mem_cons hdest)
    have hr : r ≠ flagRegister := hflag.resolve_left Bool.noConfusion
    simp only [effect, State.get_setFlagged_of_ne _ hr, hne, if_false]
  | draw | addIndex =>
    have hr : r ≠ flagRegister := hflag.resolve_left Bool.noConfusion
    simp only [effect, drawn, State.moveIndex, State.get_setV, hr.symm, if_false]
  | load x =>
    have hlt : x < r := by simpa [destination] using hdest
    exact State.get_withFirst_of_le s.v _ hlt
  | _ => rfl

/-- **An instruction leaves alone what is not in its row of the table.** -/
theorem same_of_not_touches {i : Instruction} {p : Part} (h : i.touches p = false) :
    p.Same s (i.effect wrap byte s) := by
  cases p with
  | register r => exact same_register_of_not_touches wrap byte s h
  | index =>
    cases i with
    | setIndex | addIndex | glyph | store | load => cases h
    | _ => simp only [Part.Same, effect, drawn, State.setV, State.setFlagged]
  | calls =>
    cases i with
    | call | ret => cases h
    | _ => exact effect_calls wrap byte s _
  | delay =>
    cases i with
    | setDelay => cases h
    | _ => exact effect_delay wrap byte s _
  | sound =>
    cases i with
    | setSound => cases h
    | _ => exact effect_sound wrap byte s _
  | memory =>
    cases i with
    | decimal | store => cases h
    | _ => simp only [Part.Same, effect, drawn, State.setV, State.setFlagged, State.moveIndex]
  | frame =>
    cases i with
    | clear | draw => cases h
    | _ => simp only [Part.Same, effect, State.setV, State.setFlagged, State.moveIndex]
  | mark =>
    cases i with
    | clear | draw => cases h
    | _ => simp only [Part.Same, effect, State.setV, State.setFlagged, State.moveIndex]
  | keys => exact effect_keys wrap byte s i

theorem drawn_of_touches {i : Instruction} (h : i.touches .mark = true) :
    (i.effect wrap byte s).drawn = true := by
  cases i with
  | clear | draw => rfl
  | _ => cases h

end Instruction

/-! ## A step -/

/-- **What is not touched stays.** A step that executes an instruction leaves every part of the
state as it was that the instruction does not touch. An instruction that touches the screen or its
mark leaves the screen marked. So `VF` stays bit for bit, unless the instruction puts a flag into it
or it is one of the registers that the result goes into. -/
theorem untouched_parts_stay {m : Machine} {u : Supply} {c : Cycle}
    (h : (m.step u).reply = .executed c) :
    ∃ i : Instruction, m.state.At i ∧ c = ⟨i.encode, m.state.pc⟩ ∧
      (∀ p, i.touches p = false → p.Same m.state (m.step u).machine.state) ∧
      (i.touches .frame = true ∨ i.touches .mark = true →
        (m.step u).machine.state.drawn = true) ∧
      (i.setsFlag = false → flagRegister ∉ i.destination →
        (m.step u).machine.state.v.get flagRegister = m.state.v.get flagRegister) := by
  obtain ⟨i, hat, hc, -, -, hstate⟩ := Machine.step_of_executed h
  have hsame : ∀ p, i.touches p = false → p.Same m.state (m.step u).machine.state := by
    intro p hp
    have heffect := Instruction.same_of_not_touches m.wrap u.peek m.state hp
    rw [hstate]
    cases p <;> exact heffect
  refine ⟨i, hat, hc, hsame, fun htouches => ?_, fun hflag hdest => ?_⟩
  · have hmark : i.touches .mark = true := htouches.elim id id
    rw [hstate]
    exact i.drawn_of_touches m.wrap u.peek m.state hmark
  · refine hsame (.register flagRegister) ?_
    show (decide (flagRegister ∈ i.destination) || _) = false
    rw [decide_eq_false hdest, hflag]
    rfl

/-- `FX33` writes to memory and moves neither `I` nor a register. -/
theorem untouched_parts_stay_when_storing_digits :
    let m := (Operation.run (.new .flat) (.ofSeed 1)
      [.load [0x6F, 0xFE, 0xAF, 0x00, 0xFF, 0x33], .step, .step]).machine
    (m.step (.ofSeed 1)).reply = .executed ⟨0xFF33, 0x204⟩ ∧
      (m.step (.ofSeed 1)).machine.state.index = m.state.index ∧
      (m.step (.ofSeed 1)).machine.state.v.get flagRegister = m.state.v.get flagRegister := by
  intro m
  have hstep : (m.step (.ofSeed 1)).reply = .executed ⟨0xFF33, 0x204⟩ := by decide +kernel
  obtain ⟨i, -, hc, hsame, -, hflag⟩ := untouched_parts_stay hstep
  have hi : i = .decimal 0xF := Instruction.eq_of_encode (congrArg Cycle.word hc).symm rfl
  subst hi
  exact ⟨hstep, hsame .index rfl, hflag rfl List.not_mem_nil⟩

end Chip8VM
