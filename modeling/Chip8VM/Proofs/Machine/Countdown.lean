import Chip8VM.Proofs.Machine.Bounds
import Chip8VM.Proofs.Machine.Inbox
import Chip8VM.Proofs.Machine.Moments
import Chip8VM.Proofs.Machine.Timers

/-!
# Counting down

A timer goes down by one on every tick that finds the machine not paused (`Moment.counts`), stays at
zero once there, and otherwise moves only when the instruction that sets it is executed or the
machine is reset (`Operation.timer_apply`). So where a timer ends, and which ticks sound, is told by
the number of such ticks alone (`Operation.timer_run`, `Operation.tones_run`).
-/

set_option autoImplicit false

namespace Chip8VM

/-- One of the two timers. -/
inductive Timer where
  | delay
  | sound
deriving DecidableEq, Repr

namespace Timer

/-- Where a timer stands. -/
def value : Timer → State → UInt8
  | .delay, s => s.delay
  | .sound, s => s.sound

/-- The instruction that sets a timer to `VX`. -/
def setTo : Timer → Register → Instruction
  | .delay, x => .setDelay x
  | .sound, x => .setSound x

/-- The last byte of that instruction. -/
def low : Timer → UInt8
  | .delay => 0x15
  | .sound => 0x18

end Timer

/-- The word sets a timer: it is `FX15` or `FX18`. -/
def Word.Sets (w : Word) (timer : Timer) : Prop := w.nibble 3 = 0xF ∧ w.low = timer.low

instance (w : Word) (timer : Timer) : Decidable (w.Sets timer) :=
  inferInstanceAs (Decidable (_ ∧ _))

/-- An instruction was executed that sets a timer. -/
def Reply.Sets (r : Reply) (timer : Timer) : Prop := ∃ c ∈ r.cycles, c.word.Sets timer

instance (r : Reply) (timer : Timer) : Decidable (r.Sets timer) :=
  inferInstanceAs (Decidable (∃ c ∈ r.cycles, _))

namespace Moment

/-- A tick that finds the machine not paused. -/
def counts (t : Moment) : Bool := t.operation.isTick && !t.machine.paused

/-- A tick for which the tone sounds. -/
def sounds (t : Moment) : Bool := t.operation.isTick && decide (t.reply = .flag true)

end Moment

/-! ## Instructions -/

namespace Instruction

variable {i : Instruction} {timer : Timer}

theorem sets_setTo (timer : Timer) (x : Register) : (timer.setTo x).encode.Sets timer := by
  cases timer <;> exact ⟨Word.nibble_three_ofByte _ _ _, Word.low_ofByte _ _ _⟩

theorem eq_setTo_of_sets (h : i.encode.Sets timer) : i = timer.setTo i.encode.x := by
  have hlow := h.2
  refine eq_of_encode rfl ?_
  cases timer <;> simp [decode?, h.1, hlow, Timer.low] <;> rfl

variable (wrap : Wrap) (byte : UInt8) (s : State)

theorem value_result_setTo (timer : Timer) (x : Register) :
    timer.value ((timer.setTo x).result wrap byte s) = s.v.get x := by
  cases timer <;> rfl

theorem value_result (h : ¬ i.encode.Sets timer) :
    timer.value (i.result wrap byte s) = timer.value s := by
  have hne : ∀ x, i ≠ timer.setTo x := by
    rintro x rfl
    exact h (sets_setTo timer x)
  cases timer with
  | delay =>
    refine (effect_delay wrap byte s i).trans ?_
    cases i with
    | setDelay x => exact absurd rfl (hne x)
    | _ => rfl
  | sound =>
    refine (effect_sound wrap byte s i).trans ?_
    cases i with
    | setSound x => exact absurd rfl (hne x)
    | _ => rfl

end Instruction

/-! ## One operation -/

namespace Machine

variable (m : Machine) (u : Supply) (timer : Timer)

theorem value_step (h : ¬ Reply.Sets (.stepped (m.step u).reply) timer) :
    timer.value (m.step u).machine.state = timer.value m.state := by
  have ho := m.step_outcome u
  generalize m.step u = a at ho h ⊢
  cases ho with
  | @executed i =>
    exact i.value_result m.wrap u.peek m.state fun hsets => h ⟨_, List.mem_singleton_self _, hsets⟩
  | _ => rfl

/-- The instruction that sets a timer puts `VX` there. -/
theorem value_step_of_sets {m : Machine} {u : Supply} {timer : Timer} {c : Cycle}
    (hc : (m.step u).reply = .executed c) (hsets : c.word.Sets timer) :
    timer.value (m.step u).machine.state = m.state.v.get c.word.x := by
  obtain ⟨i, -, rfl, -, -, hstate⟩ := step_of_executed hc
  have hi : timer.setTo i.encode.x = i := (Instruction.eq_setTo_of_sets hsets).symm
  rw [hstate]
  calc timer.value (i.result m.wrap u.peek m.state)
      = timer.value ((timer.setTo i.encode.x).result m.wrap u.peek m.state) := by rw [hi]
    _ = m.state.v.get i.encode.x :=
        Instruction.value_result_setTo m.wrap u.peek m.state timer i.encode.x

/-- A tick takes one off, down to zero. -/
theorem value_tick (hp : m.paused = false) :
    (timer.value m.tick.2.state).toNat = (timer.value m.state).toNat - 1 := by
  rw [tick_of_unpaused hp]
  have hdown : ∀ b : UInt8, (if b = 0 then 0 else b - 1).toNat = b.toNat - 1 := by
    intro b
    split
    · next h => rw [h]; rfl
    · next h => exact Nat.eq_sub_of_add_eq (toNat_sub_one_add_one h)
  cases timer with
  | delay => exact hdown _
  | sound => exact hdown _

end Machine

namespace Operation

variable {m : Machine} {u : Supply}

/-- **What one operation does to a timer**: a tick that counts takes one off, and nothing else moves
it but a reset and the instruction that sets it. -/
theorem timer_apply {op : Operation} (hr : op ≠ .reset) {timer : Timer}
    (h : ¬ (op.apply m u).reply.Sets timer) :
    (timer.value (op.apply m u).machine.state).toNat =
      (timer.value m.state).toNat - if (op.moment m u).counts then 1 else 0 := by
  by_cases hs : op = .step
  · subst hs
    exact congrArg UInt8.toNat (m.value_step u timer h)
  cases htick : op.isTick with
  | true =>
    cases eq_tick_of_isTick htick
    cases hp : m.paused with
    | true => simp [moment, Moment.counts, apply, Machine.tick_of_paused hp, hp]
    | false => simpa [moment, Moment.counts, isTick, apply, hp] using m.value_tick timer hp
  | false =>
    have hcounts : (op.moment m u).counts = false := by simp [moment, Moment.counts, htick]
    rw [hcounts]
    refine congrArg UInt8.toNat ?_
    have hc := change m u hs
    generalize (op.apply m u).machine = m' at hc ⊢
    cases hc with
    | reset => exact absurd rfl hr
    | tick => cases htick
    | _ => cases timer <;> rfl

/-- What a tick that counts answers: whether the sound timer was not zero before it. -/
theorem reply_tick_of_unpaused (u : Supply) (hp : m.paused = false) :
    (tick.apply m u).reply = .flag (decide (0 < m.state.sound.toNat)) := by
  simp only [apply, Machine.tick_of_unpaused hp, Reply.flag.injEq]
  rw [Bool.eq_iff_iff, bne_iff_ne, decide_eq_true_iff, Nat.pos_iff_ne_zero, ne_eq, ne_eq,
    ← UInt8.toNat_inj]
  rfl

theorem reply_tick_of_paused (u : Supply) (hp : m.paused = true) :
    (tick.apply m u).reply = .flag false := by
  simp only [apply, Machine.tick_of_paused hp]

/-! ## A history -/

/-- The ticks of a history that count. -/
def counted (m : Machine) (u : Supply) (ops : List Operation) : List Moment :=
  (moments m u ops).filter (·.counts)

theorem counted_cons (m : Machine) (u : Supply) (op : Operation) (ops : List Operation) :
    counted m u (op :: ops) =
      if (op.moment m u).counts then
        op.moment m u :: counted (op.apply m u).machine (op.apply m u).supply ops
      else counted (op.apply m u).machine (op.apply m u).supply ops := by
  rw [counted, moments, List.filter_cons]
  rfl

/-- **Where a timer ends**: as far down as ticks counted. -/
theorem timer_run {ops : List Operation} (hr : .reset ∉ ops) {timer : Timer}
    (h : ∀ t ∈ moments m u ops, ¬ t.reply.Sets timer) :
    (timer.value (run m u ops).machine.state).toNat =
      (timer.value m.state).toNat - (counted m u ops).length := by
  induction ops generalizing m u with
  | nil => rfl
  | cons op ops ih =>
    rw [List.mem_cons, not_or] at hr
    rw [moments, List.forall_mem_cons] at h
    have hfirst := timer_apply (Ne.symm hr.1) h.1
    have hrest := ih hr.2 h.2
    rw [counted_cons]
    show (timer.value (run _ _ ops).machine.state).toNat = _
    rw [hrest, hfirst]
    split
    · rw [List.length_cons]
      omega
    · omega

/-- The answers of `n` ticks that count, the first of which finds the sound timer at `sound`. -/
def tones (sound n : Nat) : List Reply :=
  List.replicate (min sound n) (.flag true) ++ List.replicate (n - sound) (.flag false)

theorem tones_succ (sound n : Nat) :
    tones sound (n + 1) = .flag (decide (0 < sound)) :: tones (sound - 1) n := by
  cases sound with
  | zero => simp [tones, List.replicate_succ]
  | succ sound => simp [tones, Nat.succ_min_succ, List.replicate_succ]

/-- **Which ticks sound**: the first ones that count, as many as the sound timer stood at. -/
theorem tones_run {ops : List Operation} (hr : .reset ∉ ops)
    (h : ∀ t ∈ moments m u ops, ¬ t.reply.Sets .sound) :
    (counted m u ops).map (·.reply) = tones m.state.sound.toNat (counted m u ops).length := by
  induction ops generalizing m u with
  | nil => simp [counted, moments, tones]
  | cons op ops ih =>
    rw [List.mem_cons, not_or] at hr
    rw [moments, List.forall_mem_cons] at h
    have hfirst : (op.apply m u).machine.state.sound.toNat =
        m.state.sound.toNat - if (op.moment m u).counts then 1 else 0 :=
      timer_apply (Ne.symm hr.1) h.1
    have hrest := ih hr.2 h.2
    rw [hfirst] at hrest
    rw [counted_cons]
    split
    · next hcounts =>
      obtain ⟨htick, hp⟩ : op.isTick = true ∧ m.paused = false := by
        simpa [moment, Moment.counts] using hcounts
      rw [if_pos hcounts] at hrest
      rw [List.map_cons, hrest, List.length_cons, tones_succ]
      refine congrArg (· :: _) ?_
      rw [eq_tick_of_isTick htick]
      exact reply_tick_of_unpaused u hp
    · next hcounts =>
      rw [if_neg hcounts] at hrest
      exact hrest

/-- A tick that finds the machine paused answers that nothing sounds. -/
theorem reply_of_paused {ops : List Operation} {t : Moment} (ht : t ∈ moments m u ops)
    (htick : t.operation.isTick = true) (hp : t.machine.paused = true) : t.reply = .flag false := by
  obtain ⟨u', hmoment⟩ := eq_moment_of_mem ht
  rw [hmoment, eq_tick_of_isTick htick]
  exact reply_tick_of_paused u' hp

/-- The ticks that sound are among those that count. -/
theorem sounds_iff {ops : List Operation} {t : Moment} (ht : t ∈ moments m u ops) :
    t.sounds = true ↔ (decide (t.reply = .flag true) && t.counts) = true := by
  have hpaused := reply_of_paused ht
  simp only [Moment.sounds, Moment.counts, Bool.and_eq_true, decide_eq_true_iff,
    Bool.not_eq_true']
  constructor
  · rintro ⟨htick, hreply⟩
    refine ⟨hreply, htick, Bool.eq_false_iff.2 fun hp => ?_⟩
    rw [hpaused htick hp] at hreply
    cases hreply
  · rintro ⟨hreply, htick, -⟩
    exact ⟨htick, hreply⟩

/-- As many ticks sound as the sound timer stood at, if there are so many that count. -/
theorem countP_sounds {ops : List Operation} (hr : .reset ∉ ops)
    (h : ∀ t ∈ moments m u ops, ¬ t.reply.Sets .sound)
    (hlen : m.state.sound.toNat ≤ (counted m u ops).length) :
    (moments m u ops).countP (·.sounds) = m.state.sound.toNat := by
  calc (moments m u ops).countP (·.sounds)
      = (moments m u ops).countP fun t => decide (t.reply = .flag true) && t.counts :=
        List.countP_congr fun t ht => sounds_iff ht
    _ = (counted m u ops).countP fun t => decide (t.reply = .flag true) := by
        rw [counted, List.countP_filter]
    _ = ((counted m u ops).map (·.reply)).countP fun r => decide (r = .flag true) := by
        rw [List.countP_map]
        rfl
    _ = m.state.sound.toNat := by
        rw [tones_run hr h, tones, List.countP_append, List.countP_replicate,
          List.countP_replicate]
        simp [hlen]

end Operation

theorem Machine.value_tick_le (m : Machine) (timer : Timer) :
    timer.value m.tick.2.state ≤ timer.value m.state := by
  rw [UInt8.le_iff_toNat_le]
  cases hp : m.paused with
  | true => rw [tick_of_paused hp]
  | false =>
    rw [m.value_tick timer hp]
    omega

/-- **The timers count down.** Take any history without a reset, and let `n` be the number of its
ticks that find the machine not paused. If no `FX15` is executed, the delay timer ends `n` further
down, or at zero. If no `FX18` is executed, so does the sound timer; then exactly the first of those
ticks sound, as many as the timer stood at, and the tone is active behind the history exactly if the
timer stood above `n`. A tick that finds the machine paused never sounds. So behind an `FX18` that
is executed with `VX` at some number, with neither a reset nor another one and with at least so many
ticks while not paused, exactly so many ticks sound. No tick takes anything off a timer that stands
at zero, and none lets a timer grow. -/
theorem timers_count_down :
    (∀ (m : Machine) (u : Supply) (ops : List Operation),
      let ts := Operation.moments m u ops
      let counted := ts.filter (·.counts)
      let n := counted.length
      let m' := (Operation.run m u ops).machine
      (.reset ∉ ops → (∀ t ∈ ts, ¬ t.reply.Sets .delay) →
        m'.state.delay.toNat = m.state.delay.toNat - n) ∧
      (.reset ∉ ops → (∀ t ∈ ts, ¬ t.reply.Sets .sound) →
        m'.state.sound.toNat = m.state.sound.toNat - n ∧
        counted.map (·.reply) = List.replicate (min m.state.sound.toNat n) (.flag true) ++
          List.replicate (n - m.state.sound.toNat) (.flag false) ∧
        (m'.toneActive = true ↔ n < m.state.sound.toNat)) ∧
      ∀ t ∈ ts, t.operation.isTick = true → t.machine.paused = true → t.reply = .flag false) ∧
    (∀ (m : Machine) (u : Supply) (c : Cycle), (m.step u).reply = .executed c →
      c.word.Sets .sound → ∀ ops : List Operation, .reset ∉ ops →
        let ts := Operation.moments (m.step u).machine (m.step u).supply ops
        let duration := (m.state.v.get c.word.x).toNat
        (∀ t ∈ ts, ¬ t.reply.Sets .sound) → duration ≤ (ts.filter (·.counts)).length →
          ts.countP (·.sounds) = duration) ∧
    ∀ m : Machine, (∀ d ∈ Operation.tick.demands m, d.Met) ∧
      ∀ timer : Timer, timer.value m.tick.2.state ≤ timer.value m.state := by
  refine ⟨fun m u ops => ⟨fun hr h => Operation.timer_run hr h, fun hr h => ?_,
    fun t => Operation.reply_of_paused⟩, fun m u c hc hsets ops hr => ?_,
    fun m => ⟨Operation.tickDemands_met m, m.value_tick_le⟩⟩
  · have hend : (Operation.run m u ops).machine.state.sound.toNat =
        m.state.sound.toNat - (Operation.counted m u ops).length := Operation.timer_run hr h
    refine ⟨hend, Operation.tones_run hr h, ?_⟩
    rw [Machine.toneActive, bne_iff_ne, ne_eq, ← UInt8.toNat_inj, hend, UInt8.toNat_zero]
    show ¬ m.state.sound.toNat - (Operation.counted m u ops).length = 0 ↔ _
    rw [Nat.sub_eq_zero_iff_le, Nat.not_le]
    rfl
  · intro ts duration h hlen
    have hsound : (m.step u).machine.state.sound = m.state.v.get c.word.x :=
      Machine.value_step_of_sets hc hsets
    have hcount := Operation.countP_sounds hr h
    rw [hsound] at hcount
    exact hcount hlen

/-- A tick on either side of a pause and one in it, and a step to the next instruction. -/
def Operation.haltedTicks : List Operation := [.tick, .pause, .tick, .resume, .step, .tick, .tick]

/-- The sound timer is set to 2 with three ticks to come that count: two of them sound. -/
theorem timers_count_down_around_pause :
    let u := Supply.ofSeed 1
    let m := (Operation.run (.new .flat) u
      [.load [0x60, 0x02, 0xF0, 0x18, 0xF0, 0x15], .step]).machine
    let later := (m.step u).machine
    let ts := Operation.moments later (m.step u).supply Operation.haltedTicks
    ((m.step u).reply = .executed ⟨0xF018, 0x202⟩ ∧ Word.Sets 0xF018 .sound ∧
      .reset ∉ Operation.haltedTicks ∧ (∀ t ∈ ts, ¬ t.reply.Sets .sound) ∧
      (ts.filter (·.counts)).length = 3) ∧
    ts.countP (·.sounds) = 2 ∧
      ((Operation.run later (m.step u).supply Operation.haltedTicks).machine.toneActive = true ↔
        3 < later.state.sound.toNat) := by
  intro u m later ts
  have hstep : (m.step u).reply = .executed ⟨0xF018, 0x202⟩ := by decide +kernel
  have hsets : Word.Sets 0xF018 .sound := by decide
  have hreset : Operation.reset ∉ Operation.haltedTicks := by decide
  obtain ⟨hnone, hlen⟩ :
      (∀ t ∈ ts, ¬ t.reply.Sets .sound) ∧ (ts.filter (·.counts)).length = 3 := by
    decide +kernel
  have hlong : 2 ≤ (ts.filter (·.counts)).length := by
    rw [hlen]
    decide
  have hduration : (m.state.v.get (Word.x 0xF018)).toNat = 2 := by decide +kernel
  obtain ⟨hcount, hset, -⟩ := timers_count_down
  have hsounds := hset m u _ hstep hsets Operation.haltedTicks hreset hnone
  rw [hduration] at hsounds
  obtain ⟨-, hsound, -⟩ := hcount later (m.step u).supply Operation.haltedTicks
  obtain ⟨-, -, htone⟩ := hsound hreset hnone
  refine ⟨⟨hstep, hsets, hreset, hnone, hlen⟩, hsounds hlong, ?_⟩
  rw [← hlen]
  exact htone

end Chip8VM
