import Chip8VM.Proofs.Machine.Silence

/-!
# Looking on

Renderers take frames, debuggers ask for the state, observers come, read and leave. What this
changes in a machine is the mark that its screen was drawn on and the list of its observers
(`Machine.watched`), and no instruction depends on either, nor on the size of the program
(`Machine.step_seenAs`). So onlookers are silent (`silence_look`): whatever they do, the machine
computes the same.
-/

set_option autoImplicit false

namespace Chip8VM

/-- The state with another mark of whether its screen was drawn on. -/
def State.marked (s : State) (drawn : Bool) : State := { s with drawn }

/-- The machine with other values in the places that no instruction looks at. -/
def Machine.seenAs (m : Machine) (drawn : Bool) (size : Nat) (os : Observers) : Machine :=
  { m with state := m.state.marked drawn, programSize := size, observers := os }

/-- The machine as onlookers may have left it. -/
def Machine.watched (m : Machine) (drawn : Bool) (os : Observers) : Machine :=
  m.seenAs drawn m.programSize os

/-- The machines differ at most in what onlookers change. -/
def Machine.SameUnwatched (m m' : Machine) : Prop := ∃ drawn os, m' = m.watched drawn os

/-- An operation only looks at the machine, or is one of an observer. -/
def Operation.isLook : Operation → Bool
  | .takeFrame | .frame | .isKeyDown _ | .toneActive | .isPaused | .programSize | .state => true
  | .subscribe _ | .unsubscribe _ | .receive _ | .pending _ => true
  | _ => false

/-! ## Instructions -/

namespace Instruction

variable (drawn : Bool) (wrap : Wrap) (byte : UInt8) (s : State) (i : Instruction)

theorem obstacle_marked : i.obstacle (s.marked drawn) = i.obstacle s := by
  cases i <;> rfl

theorem target_marked : i.target (s.marked drawn) = i.target s := by
  cases i <;> rfl

/-- An instruction draws on the screen, or it leaves the mark as it found it. -/
theorem effect_marked :
    ∃ drawn', i.effect wrap byte (s.marked drawn) = (i.effect wrap byte s).marked drawn' := by
  cases i with
  | clear => exact ⟨true, rfl⟩
  | draw x y rows => exact ⟨true, rfl⟩
  | _ => exact ⟨drawn, rfl⟩

end Instruction

/-! ## Steps -/

namespace Machine

variable {m m' : Machine}

theorem SameUnwatched.refl (m : Machine) : m.SameUnwatched m := ⟨m.state.drawn, m.observers, rfl⟩

theorem SameUnwatched.symm (h : m.SameUnwatched m') : m'.SameUnwatched m := by
  obtain ⟨drawn, os, rfl⟩ := h
  exact ⟨m.state.drawn, m.observers, rfl⟩

theorem SameUnwatched.trans {m'' : Machine} (h : m.SameUnwatched m') (h' : m'.SameUnwatched m'') :
    m.SameUnwatched m'' := by
  obtain ⟨drawn, os, rfl⟩ := h
  obtain ⟨drawn', os', rfl⟩ := h'
  exact ⟨drawn', os', rfl⟩

theorem step_seenAs (m : Machine) (u : Supply) (drawn : Bool) (size : Nat) (os : Observers) :
    After.Alike Eq (fun n n' => ∃ drawn' os', n' = n.seenAs drawn' size os') (m.step u)
      ((m.seenAs drawn size os).step u) := by
  refine step_alike ⟨drawn, os, rfl⟩ rfl rfl rfl (Instruction.obstacle_marked drawn m.state)
    (Instruction.target_marked drawn m.state) fun i _ _ => ?_
  -- Behind the instruction the mark is its own or the one it found, so it may differ once more.
  obtain ⟨drawn', he⟩ := Instruction.effect_marked drawn m.wrap u.peek m.state i
  have ht := Instruction.target_marked drawn m.state i
  refine ⟨drawn', os.notify ⟨i.encode, m.state.pc⟩, ?_⟩
  simp only [executed, commit, Instruction.result, seenAs, he, ht]
  rfl

theorem programSize_step (m : Machine) (u : Supply) :
    (m.step u).machine.programSize = m.programSize := by
  have ho := m.step_outcome u
  generalize m.step u = a at ho
  cases ho <;> rfl

theorem sameUnwatched_step (h : m.SameUnwatched m') (u : Supply) :
    After.Alike Eq SameUnwatched (m.step u) (m'.step u) := by
  obtain ⟨drawn, os, rfl⟩ := h
  have ha := m.step_seenAs u drawn m.programSize os
  obtain ⟨drawn', os', hm⟩ := ha.machine
  refine ⟨ha.reply, ⟨drawn', os', hm.trans ?_⟩, ha.supply⟩
  rw [watched, programSize_step]

end Machine

/-! ## Histories -/

namespace Operation

theorem sameUnwatched_look (m : Machine) (u : Supply) {op : Operation} (h : op.isLook = true) :
    m.SameUnwatched (op.apply m u).machine := by
  cases op with
  | takeFrame =>
    simp only [apply, Machine.takeFrame]
    split
    · exact ⟨false, m.observers, rfl⟩
    · exact .refl m
  | subscribe capacity => exact ⟨m.state.drawn, m.observers.join capacity, rfl⟩
  | unsubscribe observer => exact ⟨m.state.drawn, m.observers.leave observer, rfl⟩
  | receive observer => exact ⟨m.state.drawn, (m.observers.receive observer).2, rfl⟩
  | frame | isKeyDown | toneActive | isPaused | programSize | state | pending => exact .refl m
  | _ => cases h

theorem sameUnwatched_apply {m m' : Machine} (u : Supply) {op : Operation}
    (hop : op.isLook = false) (h : m.SameUnwatched m') :
    After.Alike Eq Machine.SameUnwatched (op.apply m u) (op.apply m' u) := by
  have hstep := Machine.sameUnwatched_step h u
  obtain ⟨drawn, os, rfl⟩ := h
  cases op with
  | step => exact ⟨congrArg Reply.stepped hstep.reply, hstep.machine, hstep.supply⟩
  | tick =>
    have hp : (m.watched drawn os).paused = m.paused := rfl
    simp only [apply, Machine.tick, hp]
    cases m.paused <;> exact ⟨rfl, ⟨drawn, os, rfl⟩, rfl⟩
  | load image =>
    exact settle_alike (fun _ => rfl) ⟨drawn, os, rfl⟩ u
      (Machine.load_alike image ⟨drawn, os, rfl⟩)
  | loadFrom source =>
    exact settle_alike (fun _ => rfl) ⟨drawn, os, rfl⟩ u
      (Machine.loadFrom_alike source fun _ => ⟨drawn, os, rfl⟩)
  | press key =>
    exact settle_alike (fun _ => rfl) ⟨drawn, os, rfl⟩ u
      (Machine.setKey_alike key true fun _ => ⟨drawn, os, rfl⟩)
  | release key =>
    exact settle_alike (fun _ => rfl) ⟨drawn, os, rfl⟩ u
      (Machine.setKey_alike key false fun _ => ⟨drawn, os, rfl⟩)
  | reset => exact ⟨rfl, ⟨false, os, rfl⟩, rfl⟩
  | pause | resume => exact ⟨rfl, ⟨drawn, os, rfl⟩, rfl⟩
  | _ => cases hop

/-- Onlookers are silent to everybody else. -/
theorem silence_look : Silence isLook (fun _ _ => True) Machine.SameUnwatched where
  left u _ hop h := (sameUnwatched_look _ u hop).symm.trans h
  right u _ hop h := h.trans (sameUnwatched_look _ u hop)
  supply m u op hop := by
    cases op with
    | step | load | loadFrom | press | release | tick | reset | pause | resume => cases hop
    | _ => rfl
  alike u _ hop _ h := sameUnwatched_apply u hop h

end Operation

/-- **Looking on changes nothing.** Histories that are the same but for what onlookers do get the
same replies to everything else, and leave machines that differ at most in the mark of a drawn
screen and in their observers, after any prefixes that are the same but for onlookers. A step
depends neither on these two nor on the size of the program, and the size stays as it is. -/
theorem looking_changes_nothing (m : Machine) (u : Supply) :
    (∀ ops₁ ops₂ : List Operation,
      Operation.loud (·.isLook) ops₁ = Operation.loud (·.isLook) ops₂ →
      Operation.heard (·.isLook) ops₁ (Operation.run m u ops₁).reply =
          Operation.heard (·.isLook) ops₂ (Operation.run m u ops₂).reply ∧
        ∀ pre₁ pre₂, pre₁ <+: ops₁ → pre₂ <+: ops₂ →
          Operation.loud (·.isLook) pre₁ = Operation.loud (·.isLook) pre₂ →
          (Operation.run m u pre₁).machine.SameUnwatched (Operation.run m u pre₂).machine ∧
            (Operation.run m u pre₁).supply = (Operation.run m u pre₂).supply) ∧
    ∀ drawn size os, ∃ drawn' os', (m.seenAs drawn size os).step u =
      ⟨(m.step u).reply, (m.step u).machine.seenAs drawn' size os', (m.step u).supply⟩ := by
  have hrun : ∀ ops₁ ops₂, Operation.loud (·.isLook) ops₁ = Operation.loud (·.isLook) ops₂ → _ :=
    fun ops₁ ops₂ h => Operation.silence_look.run (.refl m) u (.of_loud h) fun _ _ => trivial
  refine ⟨fun ops₁ ops₂ h => ⟨(hrun ops₁ ops₂ h).1, fun pre₁ pre₂ _ _ hpre => ?_⟩,
    fun drawn size os => ?_⟩
  · exact (hrun pre₁ pre₂ hpre).2
  · have ha := m.step_seenAs u drawn size os
    obtain ⟨drawn', os', hm⟩ := ha.machine
    refine ⟨drawn', os', ?_⟩
    rw [ha.reply, ← hm, ← ha.supply]

/-- A program that draws, once by itself and once with a renderer and an observer that leaves. -/
theorem looking_changes_nothing_while_drawing :
    Machine.SameUnwatched
      (Operation.run (.new .flat) (.ofSeed 1)
        [.load [0xD0, 0x05, 0x00, 0xE0], .step, .step]).machine
      (Operation.run (.new .flat) (.ofSeed 1)
        [.subscribe 1, .load [0xD0, 0x05, 0x00, 0xE0], .step, .takeFrame, .receive 0,
          .unsubscribe 0, .step, .takeFrame]).machine := by
  have hlook := (looking_changes_nothing (.new .flat) (.ofSeed 1)).1
    [.load [0xD0, 0x05, 0x00, 0xE0], .step, .step]
    [.subscribe 1, .load [0xD0, 0x05, 0x00, 0xE0], .step, .takeFrame, .receive 0,
      .unsubscribe 0, .step, .takeFrame] rfl
  exact (hlook.2 _ _ List.prefix_rfl List.prefix_rfl rfl).1

end Chip8VM
