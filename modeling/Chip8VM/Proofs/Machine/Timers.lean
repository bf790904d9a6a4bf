import Chip8VM.Proofs.Machine.Silence

/-!
# Who sees the timers

The timers count down on ticks of their own, and no instruction but the one that reads the delay
timer, `FX07`, depends on where they stand. So a program that does not carry it out goes the same
way however its steps and the ticks are interleaved (`silence_tick`), and a step that has nothing
to do with the timers trades places with a tick (`step_tick_comm`).
-/

set_option autoImplicit false

namespace Chip8VM

/-- The state with other timers. -/
def State.withTimers (s : State) (delay sound : UInt8) : State := { s with delay, sound }

/-- The machine with other timers. -/
def Machine.withTimers (m : Machine) (delay sound : UInt8) : Machine :=
  { m with state := m.state.withTimers delay sound }

/-- The machines differ at most in their timers. -/
def Machine.SameUntimed (m m' : Machine) : Prop := ∃ delay sound, m' = m.withTimers delay sound

/-- The reply of a step that carried out `FX07`, which reads the delay timer. -/
def Reply.readsDelay : Reply → Bool
  | .stepped (.executed c) => c.word.nibble 3 == 0xF && c.word.low == 0x07
  | _ => false

/-- An operation is a tick of the timers. -/
def Operation.isTick : Operation → Bool
  | .tick => true
  | _ => false

theorem Operation.eq_tick_of_isTick {op : Operation} (h : op.isTick = true) : op = .tick := by
  cases op with
  | tick => rfl
  | _ => cases h

theorem Machine.SameUntimed.refl (m : Machine) : m.SameUntimed m :=
  ⟨m.state.delay, m.state.sound, rfl⟩

/-! ## Instructions -/

namespace Instruction

theorem readsDelay_encode (x : Register) (pc : Word) :
    Reply.readsDelay (.stepped (.executed ⟨encode (.readDelay x), pc⟩)) = true := by
  simp [Reply.readsDelay, encode, Word.nibble_three_ofByte, Word.low_ofByte]

variable (delay sound : UInt8) (wrap : Wrap) (byte : UInt8) (s : State) {i : Instruction}

theorem obstacle_withTimers (i : Instruction) :
    i.obstacle (s.withTimers delay sound) = i.obstacle s := by
  cases i <;> rfl

theorem target_withTimers (i : Instruction) :
    i.target (s.withTimers delay sound) = i.target s := by
  cases i <;> rfl

/-- An instruction that does not read the delay timer makes the same of states that differ in
their timers, though it may set them. -/
theorem effect_withTimers (h : ∀ x, i ≠ .readDelay x) :
    ∃ delay' sound', i.effect wrap byte (s.withTimers delay sound) =
      (i.effect wrap byte s).withTimers delay' sound' := by
  cases i with
  | readDelay x => exact absurd rfl (h x)
  | setDelay x => exact ⟨s.v.get x, sound, rfl⟩
  | setSound x => exact ⟨delay, s.v.get x, rfl⟩
  | _ => exact ⟨delay, sound, rfl⟩

/-- An instruction has nothing to do with the timers. -/
def Untimed (i : Instruction) : Prop :=
  ∀ x, i ≠ .readDelay x ∧ i ≠ .setDelay x ∧ i ≠ .setSound x

theorem effect_withTimers_of_untimed (h : i.Untimed) :
    i.effect wrap byte (s.withTimers delay sound) =
      (i.effect wrap byte s).withTimers delay sound := by
  cases i with
  | readDelay x => exact absurd rfl (h x).1
  | setDelay x => exact absurd rfl (h x).2.1
  | setSound x => exact absurd rfl (h x).2.2
  | _ => rfl

theorem timers_effect_of_untimed (h : i.Untimed) :
    (i.effect wrap byte s).delay = s.delay ∧ (i.effect wrap byte s).sound = s.sound := by
  rw [effect_delay, effect_sound]
  cases i with
  | setDelay x => exact absurd rfl (h x).2.1
  | setSound x => exact absurd rfl (h x).2.2
  | _ => exact ⟨rfl, rfl⟩

end Instruction

/-! ## Ticks -/

namespace Machine

variable {m m' : Machine} {u : Supply}

theorem tick_of_paused (h : m.paused = true) : m.tick = (false, m) := if_pos h

theorem tick_of_unpaused (h : m.paused = false) :
    m.tick = (m.state.sound != 0,
      m.withTimers (if m.state.delay = 0 then 0 else m.state.delay - 1)
        (if m.state.sound = 0 then 0 else m.state.sound - 1)) :=
  if_neg (by simp [h])

theorem sameUntimed_tick (m : Machine) : m.SameUntimed m.tick.2 := by
  cases hp : m.paused with
  | true => rw [tick_of_paused hp]; exact .refl m
  | false => rw [tick_of_unpaused hp]; exact ⟨_, _, rfl⟩

theorem SameUntimed.trans {m'' : Machine} (h : m.SameUntimed m') (h' : m'.SameUntimed m'') :
    m.SameUntimed m'' := by
  obtain ⟨delay, sound, rfl⟩ := h
  obtain ⟨delay', sound', rfl⟩ := h'
  exact ⟨delay', sound', rfl⟩

theorem SameUntimed.symm (h : m.SameUntimed m') : m'.SameUntimed m := by
  obtain ⟨delay, sound, rfl⟩ := h
  exact ⟨m.state.delay, m.state.sound, rfl⟩

/-! ## Steps -/

theorem sameUntimed_step (h : m.SameUntimed m')
    (hr : Reply.readsDelay (.stepped (m.step u).reply) = false) :
    After.Alike Eq SameUntimed (m.step u) (m'.step u) := by
  obtain ⟨delay, sound, rfl⟩ := h
  refine step_alike ⟨delay, sound, rfl⟩ rfl rfl rfl
    (Instruction.obstacle_withTimers delay sound m.state)
    (Instruction.target_withTimers delay sound m.state) fun i _ hi => ?_
  have hread : ∀ x, i ≠ .readDelay x := by
    rintro x rfl
    rw [hi, executed, Instruction.readsDelay_encode] at hr
    cases hr
  obtain ⟨delay', sound', he⟩ :=
    Instruction.effect_withTimers delay sound m.wrap u.peek m.state hread
  refine ⟨delay', sound', ?_⟩
  have ht := Instruction.target_withTimers delay sound m.state i
  simp only [executed, commit, Instruction.result, withTimers, he, ht]
  rfl

/-- The instruction at the counter, if there is one, has nothing to do with the timers. -/
def Untimed (m : Machine) : Prop := ∀ i, m.state.At i → i.Untimed

theorem step_withTimers (h : m.Untimed) (u : Supply) (delay sound : UInt8) :
    After.Alike Eq (fun n n' => n' = n.withTimers delay sound) (m.step u)
      ((m.withTimers delay sound).step u) := by
  refine step_alike rfl rfl rfl rfl (Instruction.obstacle_withTimers delay sound m.state)
    (Instruction.target_withTimers delay sound m.state) fun i hat _ => ?_
  have he := Instruction.effect_withTimers_of_untimed delay sound m.wrap u.peek m.state (h i hat)
  have ht := Instruction.target_withTimers delay sound m.state i
  simp only [executed, commit, Instruction.result, withTimers, he, ht]
  rfl

theorem timers_step (h : m.Untimed) (u : Supply) :
    (m.step u).machine.state.delay = m.state.delay ∧
      (m.step u).machine.state.sound = m.state.sound := by
  have ho := m.step_outcome u
  generalize m.step u = a at ho
  cases ho with
  | executed _ hat => exact Instruction.timers_effect_of_untimed m.wrap u.peek m.state (h _ hat)
  | _ => exact ⟨rfl, rfl⟩

end Machine

/-! ## Histories -/

namespace Operation

/-- An operation does not look at the timers, and if it is a step it does not read them. -/
def BlindToTimers (op : Operation) (r : Reply) : Prop :=
  op ≠ .toneActive ∧ op ≠ .state ∧ r.readsDelay = false

theorem sameUntimed_apply {m m' : Machine} (u : Supply) {op : Operation} (ht : op.isTick = false)
    (hb : op.BlindToTimers (op.apply m u).reply) (h : m.SameUntimed m') :
    After.Alike Eq Machine.SameUntimed (op.apply m u) (op.apply m' u) := by
  obtain ⟨htone, hstate, hread⟩ := hb
  obtain ⟨delay, sound, rfl⟩ := h
  cases op with
  | tick => cases ht
  | toneActive => exact absurd rfl htone
  | state => exact absurd rfl hstate
  | step =>
    have ha := Machine.sameUntimed_step ⟨delay, sound, rfl⟩ hread
    exact ⟨congrArg Reply.stepped ha.reply, ha.machine, ha.supply⟩
  | reset => exact ⟨rfl, .refl _, rfl⟩
  | load image =>
    exact settle_alike (fun _ => rfl) ⟨delay, sound, rfl⟩ u
      (Machine.load_alike image ⟨delay, sound, rfl⟩)
  | loadFrom source =>
    exact settle_alike (fun _ => rfl) ⟨delay, sound, rfl⟩ u
      (Machine.loadFrom_alike source fun _ => ⟨delay, sound, rfl⟩)
  | press key =>
    exact settle_alike (fun _ => rfl) ⟨delay, sound, rfl⟩ u
      (Machine.setKey_alike key true fun _ => ⟨delay, sound, rfl⟩)
  | release key =>
    exact settle_alike (fun _ => rfl) ⟨delay, sound, rfl⟩ u
      (Machine.setKey_alike key false fun _ => ⟨delay, sound, rfl⟩)
  | takeFrame =>
    have hd : (m.withTimers delay sound).state.drawn = m.state.drawn := rfl
    simp only [apply, Machine.takeFrame, hd]
    cases m.state.drawn <;> exact ⟨rfl, ⟨delay, sound, rfl⟩, rfl⟩
  | _ => exact ⟨rfl, ⟨delay, sound, rfl⟩, rfl⟩

/-- Ticks are silent to whoever does not look at the timers. -/
theorem silence_tick : Silence isTick BlindToTimers Machine.SameUntimed where
  left u op hop h := by
    rw [eq_tick_of_isTick hop]
    exact (Machine.sameUntimed_tick _).symm.trans h
  right u op hop h := by
    rw [eq_tick_of_isTick hop]
    exact h.trans (Machine.sameUntimed_tick _)
  supply m u op hop := by
    rw [eq_tick_of_isTick hop]
    rfl
  alike u op := sameUntimed_apply u

theorem blind_of_notMem {m : Machine} {u : Supply} {ops : List Operation}
    (htone : .toneActive ∉ ops) (hstate : .state ∉ ops)
    (hread : ∀ r ∈ (run m u ops).reply, r.readsDelay = false) :
    ∀ entry ∈ ops.zip (run m u ops).reply, entry.1.BlindToTimers entry.2 := by
  intro entry he
  obtain ⟨hop, hr⟩ := List.of_mem_zip he
  refine ⟨?_, ?_, hread _ hr⟩
  · exact fun h => htone (h ▸ hop)
  · exact fun h => hstate (h ▸ hop)

/-- A step that has nothing to do with the timers trades places with a tick. -/
theorem step_tick_comm {m : Machine} (h : m.Untimed) (u : Supply) :
    ∃ r t m' u', run m u [.step, .tick] = ⟨[r, t], m', u'⟩ ∧
      run m u [.tick, .step] = ⟨[t, r], m', u'⟩ := by
  refine ⟨_, _, _, _, rfl, ?_⟩
  have hp := Machine.paused_step m u
  simp only [run, apply]
  cases hpm : m.paused with
  | true =>
    rw [Machine.tick_of_paused hpm, Machine.tick_of_paused (hp.trans hpm)]
  | false =>
    obtain ⟨hdelay, hsound⟩ := Machine.timers_step h u
    rw [Machine.tick_of_unpaused hpm, Machine.tick_of_unpaused (hp.trans hpm), hdelay, hsound]
    have ha := Machine.step_withTimers h u (if m.state.delay = 0 then 0 else m.state.delay - 1)
      (if m.state.sound = 0 then 0 else m.state.sound - 1)
    rw [ha.machine, ha.supply, ← ha.reply]

end Operation

/-- **Only `FX07` sees the timers.** Histories that are the same but for their ticks get the same
replies to everything else, and leave machines that differ at most in their timers, after any
prefixes that are the same but for ticks; all this provided that the first carries out no `FX07`
and does not ask for the timers from outside. A step trades places with a tick unless the
instruction at the counter reads or sets a timer. -/
theorem timers_seen_only_by_reading (m : Machine) (u : Supply) :
    (∀ ops₁ ops₂ : List Operation,
      Operation.loud (·.isTick) ops₁ = Operation.loud (·.isTick) ops₂ →
      .toneActive ∉ ops₁ → .state ∉ ops₁ →
      (∀ r ∈ (Operation.run m u ops₁).reply, r.readsDelay = false) →
      Operation.heard (·.isTick) ops₁ (Operation.run m u ops₁).reply =
          Operation.heard (·.isTick) ops₂ (Operation.run m u ops₂).reply ∧
        ∀ pre₁ pre₂, pre₁ <+: ops₁ → pre₂ <+: ops₂ →
          Operation.loud (·.isTick) pre₁ = Operation.loud (·.isTick) pre₂ →
          (Operation.run m u pre₁).machine.SameUntimed (Operation.run m u pre₂).machine ∧
            (Operation.run m u pre₁).supply = (Operation.run m u pre₂).supply) ∧
    ((∀ x, ¬ m.state.At (.readDelay x) ∧ ¬ m.state.At (.setDelay x) ∧
        ¬ m.state.At (.setSound x)) →
      ∃ r t m' u', Operation.run m u [.step, .tick] = ⟨[r, t], m', u'⟩ ∧
        Operation.run m u [.tick, .step] = ⟨[t, r], m', u'⟩) := by
  constructor
  · intro ops₁ ops₂ hops htone hstate hread
    have hblind := Operation.blind_of_notMem htone hstate hread
    refine ⟨(Operation.silence_tick.run (.refl m) u (.of_loud hops) hblind).1, ?_⟩
    rintro pre₁ pre₂ ⟨rest, rfl⟩ - hpre
    have hblind := Operation.blind_of_notMem (fun h => htone (List.mem_append_left rest h))
      (fun h => hstate (List.mem_append_left rest h)) fun r hr => hread r <| by
        rw [Operation.run_append]
        exact List.mem_append_left _ hr
    exact (Operation.silence_tick.run (.refl m) u (.of_loud hpre) hblind).2
  · intro h
    refine Operation.step_tick_comm (fun i hat x => ⟨?_, ?_, ?_⟩) u
    · rintro rfl
      exact (h x).1 hat
    · rintro rfl
      exact (h x).2.1 hat
    · rintro rfl
      exact (h x).2.2 hat

/-- A program that sets the delay timer, once without ticks and once between them. -/
theorem timers_seen_only_by_reading_when_set :
    Machine.SameUntimed
      (Operation.run (.new .flat) (.ofSeed 1)
        [.load [0x60, 0x05, 0xF0, 0x15], .step, .step]).machine
      (Operation.run (.new .flat) (.ofSeed 1)
        [.load [0x60, 0x05, 0xF0, 0x15], .tick, .step, .step, .tick, .tick]).machine := by
  have hread : ∀ r ∈ (Operation.run (.new .flat) (.ofSeed 1)
      [.load [0x60, 0x05, 0xF0, 0x15], .step, .step]).reply, r.readsDelay = false := by
    decide +kernel
  have hseen := (timers_seen_only_by_reading (.new .flat) (.ofSeed 1)).1
    [.load [0x60, 0x05, 0xF0, 0x15], .step, .step]
    [.load [0x60, 0x05, 0xF0, 0x15], .tick, .step, .step, .tick, .tick] rfl
    (by decide) (by decide) hread
  exact (hseen.2 _ _ List.prefix_rfl List.prefix_rfl rfl).1

end Chip8VM
