import Chip8VM.Proofs.Console.Session

/-!
# What the buzzer is told

The thread of the clocks keeps the buzzer at a tone (`Console.tone`) and tells it of every change of
that (`Turn.tells`). So a buzzer that never breaks down is told `true` and `false` in turn, and was
told `false` last whenever no thread ticks. In a session these are the changes in what the ticks of
the timers find (`Event.calls_session`). A buzzer that breaks down takes the thread with it, so it
is told nothing more up to the next start (`Event.calls_alone`).
-/

set_option autoImplicit false

namespace Chip8VM

/-! ## Changes of a tone -/

namespace Buzzer

/-- `true` and `false` in turn, beginning with `true`. -/
def alternating (n : Nat) : List Bool := (List.range n).map (· % 2 == 0)

/-- Those of some tones that differ from the one before, `tone` coming before the first. -/
def changes (tone : Bool) : List Bool → List Bool
  | [] => []
  | b :: rest => if b = tone then changes tone rest else b :: changes b rest

theorem changes_append (tone : Bool) (l m : List Bool) :
    changes tone (l ++ m) = changes tone l ++ changes (l.getLastD tone) m := by
  induction l generalizing tone with
  | nil => rfl
  | cons b l ih =>
    rw [List.cons_append, changes, changes, List.getLastD_cons]
    split
    · next hb => rw [ih, hb]
    · rw [ih, List.cons_append]

/-- A tone that sounded at last is turned off. -/
theorem changes_off (l : List Bool) :
    changes (l.getLastD false) [false] = if l.getLast? = some true then [false] else [] := by
  rw [List.getLastD_eq_getLast?]
  cases l.getLast? with
  | none => rfl
  | some b => cases b <;> rfl

theorem beq_mod_two_succ (k : Nat) : ((k + 1) % 2 == 0) = !(k % 2 == 0) := by
  rcases Nat.mod_two_eq_zero_or_one k with h | h <;> simp [Nat.add_mod, h]

/-- Tones each of which differs from the one before are `true` and `false` in turn. -/
theorem eq_alternating {l : List Bool} (h : (false :: l).IsChain (· ≠ ·)) :
    l = alternating l.length := by
  have hget : ∀ k (hk : k < l.length), l[k] = (k % 2 == 0) := by
    intro k
    induction k with
    | zero =>
      intro hk
      have hne := List.isChain_iff_getElem.1 h 0 (by simpa using hk)
      simpa using hne.symm
    | succ k ih =>
      intro hk
      have hne := List.isChain_iff_getElem.1 h (k + 1) (by simpa using hk)
      simp only [List.getElem_cons_succ, ih (by omega)] at hne
      rw [beq_mod_two_succ]
      exact Bool.eq_not.2 hne.symm
  refine List.ext_getElem (by simp [alternating]) fun k hk _ => ?_
  rw [hget k hk]
  simp [alternating]

theorem getLastD_alternating (n : Nat) : (alternating n).getLastD false = !(n % 2 == 0) := by
  cases n with
  | zero => rfl
  | succ n =>
    rw [alternating, List.range_succ, List.map_append, List.map_singleton, List.getLastD_concat,
      beq_mod_two_succ, Bool.not_not]

end Buzzer

/-! ## One event -/

namespace Console

/-- The tone that a buzzer is kept at which is told everything: whether a thread ticks whose last
tick of the timers sounded. -/
def tone (c : Console) : Bool := c.clock.any fun t => t.health = .ticking && t.sounding

theorem tone_eq {c : Console} {t : ClockThread} (h : c.clock = some t) :
    c.tone = (decide (t.health = .ticking) && t.sounding) := by
  simp [tone, h]

theorem tone_of_none {c : Console} (h : c.clock = none) : c.tone = false := by
  simp [tone, h]

theorem tone_of_idle {c : Console} (h : c.isTicking = false) : c.tone = false := by
  cases hc : c.clock with
  | none => exact tone_of_none hc
  | some t =>
    rw [isTicking_eq hc] at h
    rw [tone_eq hc, h, Bool.false_and]

theorem calls_tellAll {c : Console} (hm : c.config.muted = false) (tones : List Bool) :
    (c.tellAll tones).buzzer.calls = c.buzzer.calls ++ tones := by
  simp [tellAll, hm]

theorem fails_eq {c : Console} (hm : c.config.muted = false) :
    c.fails = c.buzzer.breaksAt c.buzzer.calls.length := by
  simp [fails, hm]

end Console

/-- What the buzzer may be told between one moment and the next: nothing, a change of the tone, or
a change at which it breaks down and takes the thread with it. -/
inductive Tells (c c' : Console) : Prop
  | nothing : c'.buzzer.calls = c.buzzer.calls → c'.tone = c.tone → Tells c c'
  | change : c'.buzzer.calls = c.buzzer.calls ++ [!c.tone] → c'.tone = !c.tone →
      c.fails = false → Tells c c'
  | last : c'.buzzer.calls = c.buzzer.calls ++ [!c.tone] → c'.isTicking = false →
      c.fails = true → Tells c c'

/-- The buzzer is told a tone if it is not the one that it is kept at. -/
theorem Tells.of_calls {c c' : Console} {b : Bool}
    (h : c'.buzzer.calls = c.buzzer.calls ++ if b = c.tone then [] else [b])
    (hsame : b = c.tone → c'.tone = b)
    (hchange : c.fails = false → c'.tone = b)
    (hlast : b ≠ c.tone → c.fails = true → c'.isTicking = false) : Tells c c' := by
  by_cases hb : b = c.tone
  · rw [if_pos hb, List.append_nil] at h
    exact .nothing h ((hsame hb).trans hb)
  · have hnot : b = !c.tone := Bool.eq_not.2 hb
    rw [if_neg hb, hnot] at h
    cases hf : c.fails with
    | false => exact .change h ((hchange hf).trans hnot) hf
    | true => exact .last h (hlast hb hf) hf

theorem ClockThread.farewell_eq (t : ClockThread) :
    t.farewell = if false = t.sounding then [] else [false] := by
  unfold farewell
  cases t.sounding <;> rfl

namespace Turn

variable {c c' : Console} {e : Event} (h : Turn c e c')
include h

theorem calls_of_muted (hm : c.config.muted = true) : c'.buzzer.calls = c.buzzer.calls := by
  cases h <;> simp [Console.tellAll, hm]

theorem tells (hm : c.config.muted = false) : Tells c c' := by
  cases h with
  | started hc => exact .nothing rfl (by simp [Console.tone, hc, ClockThread.fresh])
  | stepped hc => exact .nothing rfl (by simp [Console.tone, hc])
  | @stopped _ t errors _ hc =>
    refine .of_calls (b := false) ?_ (fun _ => rfl) (fun _ => rfl) fun _ _ => rfl
    rw [Console.tone_eq hc, ← Console.calls_tellAll hm]
    by_cases ht : t.health = .ticking <;> simp [ht, t.farewell_eq]
  | @gaveUp _ t text _ hc ht =>
    refine .of_calls (b := false) ?_ (fun _ => ?_) (fun _ => ?_) fun _ _ => ?_
    · rw [Console.tone_eq hc, ht, ← Console.calls_tellAll hm, t.farewell_eq]
      simp
    · simp [Console.tone]
    · simp [Console.tone]
    · simp [Console.isTicking]
  | @ticked t hc ht =>
    have htone : c.tone = t.sounding := by simp [Console.tone_eq hc, ht]
    refine .of_calls (b := c.machine.tick.1) ?_ (fun hb => ?_) (fun hf => ?_) fun hb hf => ?_
    · rw [htone, ← Console.calls_tellAll hm]
    · rw [htone] at hb
      simp [Console.tone, hb, ht]
    · by_cases hb : c.machine.tick.1 = t.sounding <;> simp [Console.tone, hb, ht, hf]
    · rw [htone] at hb
      simp [Console.isTicking, hb, hf]
  | _ => exact .nothing rfl rfl

/-- Once no thread ticks the buzzer is told nothing. -/
theorem calls_of_idle (hi : c.isTicking = false) : c'.buzzer.calls = c.buzzer.calls := by
  cases h with
  | gaveUp _ _ hc ht | ticked hc ht => simp [Console.isTicking_eq hc, ht] at hi
  | stopped _ _ hc =>
    rw [Console.isTicking_eq hc, decide_eq_false_iff_not] at hi
    simp [hi]
  | _ => rfl

/-- What a buzzer that does not break down is told while a thread ticks: the change to what a tick
of the timers finds, and `false` at last. -/
theorem calls_of_ticking (hm : c.config.muted = false) (hf : c.fails = false)
    (hi : c.isTicking = true) :
    c'.buzzer.calls = c.buzzer.calls ++ Buzzer.changes c.tone
        ((e.tone? c).toList ++ if c'.isTicking then [] else [false]) ∧
      (c'.isTicking = true → c'.tone = (e.tone? c).toList.getLastD c.tone) := by
  obtain ⟨t, hc, ht⟩ := Console.exists_of_isTicking hi
  have htone : c.tone = t.sounding := by simp [Console.tone_eq hc, ht]
  cases h with
  | idle _ hidle => rw [hi] at hidle; cases hidle
  | started hnone => rw [hc] at hnone; cases hnone
  | still _ hnone => rw [hc] at hnone; cases hnone
  | plain | poisoned | refused =>
    refine ⟨?_, fun _ => rfl⟩
    simp_all [Console.isTicking, Event.tone?, Buzzer.changes]
  | @stopped _ t' errors he hc' =>
    obtain rfl : t = t' := Option.some.inj (hc.symm.trans hc')
    have hnone : e.tone? c = none := by cases e <;> first | rfl | cases he
    refine ⟨?_, fun hi' => by cases hi'⟩
    simp [Console.tellAll, hm, ht, hnone, Console.isTicking, Buzzer.changes, htone, t.farewell_eq]
  | @gaveUp _ t' text _ hc' _ hp =>
    obtain rfl : t = t' := Option.some.inj (hc.symm.trans hc')
    have hnone : e.tone? c = none := by cases e <;> simp [Event.tone?, hp]
    refine ⟨?_, fun hi' => ?_⟩
    · simp [Console.tellAll, hm, hnone, Console.isTicking, Buzzer.changes, htone, t.farewell_eq]
    · simp [Console.isTicking] at hi'
  | @stepped t' hc' =>
    obtain rfl : t = t' := Option.some.inj (hc.symm.trans hc')
    refine ⟨?_, fun _ => ?_⟩
    · simp [Console.isTicking, ht, Event.tone?, Buzzer.changes]
    · simp [Console.tone, ht, hc, Event.tone?]
  | @ticked t' hc' _ hp =>
    obtain rfl : t = t' := Option.some.inj (hc.symm.trans hc')
    have hsome : Event.tone? c .timerTick = some c.machine.tick.1 := by simp [Event.tone?, hi, hp]
    rw [hsome, htone]
    by_cases hb : c.machine.tick.1 = t.sounding
    · simp [hb, Console.isTicking, Console.tone, ht, Buzzer.changes]
    · simp [hb, hf, Console.isTicking, Console.tone, ht, Buzzer.changes, Console.tellAll, hm]

end Turn

/-! ## A life -/

namespace Event

variable {c : Console} (h : Reachable c.machine)
include h

theorem calls_of_muted (hm : c.config.muted = true) (events : List Event) :
    (run c events).2.buzzer.calls = c.buzzer.calls := by
  induction events generalizing c with
  | nil => rfl
  | cons e es ih =>
    have he := turn h e
    exact (ih (reachable_apply h e) (he.config ▸ hm)).trans (he.calls_of_muted hm)

theorem calls_of_idle (hi : c.isTicking = false) {events : List Event}
    (hs : startsAgain c events = false) : (run c events).2.buzzer.calls = c.buzzer.calls := by
  refine (idle_run h hi hs (P := fun d => d.buzzer.calls = c.buzzer.calls) ?_ rfl).1
  intro d e hd hdi _ heq
  exact ((turn hd e).calls_of_idle hdi).trans heq

variable (hm : c.config.muted = false)
include hm

/-- **A buzzer that never breaks down** is told tones each of which differs from the one before, and
was told last what it is kept at. -/
theorem calls_run (hb : ∀ k, c.buzzer.breaksAt k = false) (events : List Event) :
    ∃ l, (run c events).2.buzzer.calls = c.buzzer.calls ++ l ∧
      (c.tone :: l).IsChain (· ≠ ·) ∧ l.getLastD c.tone = (run c events).2.tone := by
  induction events generalizing c with
  | nil => exact ⟨[], by simp [run], List.IsChain.singleton _, rfl⟩
  | cons e es ih =>
    have he := turn h e
    obtain ⟨l, hl, hchain, hlast⟩ :=
      ih (reachable_apply h e) (he.config ▸ hm) (he.breaksAt ▸ hb)
    cases he.tells hm with
    | nothing hcalls htone =>
      rw [htone] at hchain hlast
      exact ⟨l, hcalls ▸ hl, hchain, hlast⟩
    | change hcalls htone =>
      refine ⟨(!c.tone) :: l, ?_, ?_, ?_⟩
      · rw [hcalls] at hl
        simpa [run] using hl
      · rw [htone] at hchain
        exact List.isChain_cons_cons.2 ⟨by simp, hchain⟩
      · rw [List.getLastD_cons, ← htone]
        exact hlast
    | last _ _ hf =>
      rw [Console.fails_eq hm, hb] at hf
      cases hf

/-- **What a buzzer that never breaks down is told in a session**: the changes in what the ticks of
the timers find, and `false` at the end. -/
theorem calls_session (hb : ∀ k, c.buzzer.breaksAt k = false) (hi : c.isTicking = true)
    {events : List Event} (hs : startsAgain c events = false) :
    (run c events).2.buzzer.calls = c.buzzer.calls ++ Buzzer.changes c.tone
      (tones c events ++ if (run c events).2.isTicking then [] else [false]) := by
  induction events generalizing c with
  | nil => simp [run, tones, gather, hi, Buzzer.changes]
  | cons e es ih =>
    obtain ⟨-, hs⟩ := startsAgain_cons_eq_false.1 hs
    have he := turn h e
    have hr := reachable_apply h e
    obtain ⟨hcalls, htone⟩ := he.calls_of_ticking hm (by rw [Console.fails_eq hm, hb]) hi
    cases hi' : (e.apply c).2.isTicking with
    | true =>
      have hrest := ih hr (he.config ▸ hm) (he.breaksAt ▸ hb) hi' hs
      rw [htone hi', hcalls, hi', if_pos rfl, List.append_nil, List.append_assoc,
        ← Buzzer.changes_append, ← List.append_assoc] at hrest
      exact hrest
    | false =>
      -- The thread is gone, and there is nothing more to come.
      have htones : tones (e.apply c).2 es = [] :=
        gather_of_idle hr hi' hs fun hd => tone?_of_idle hd
      have hlast : (run c (e :: es)).2.isTicking = false := isTicking_run_of_idle hr hi' hs
      rw [hi', if_neg Bool.false_ne_true] at hcalls
      rw [hlast, if_neg Bool.false_ne_true, tones, gather, ← tones, htones, List.append_nil,
        ← hcalls]
      exact calls_of_idle hr hi' hs

/-- **Up to the next start** a buzzer is told tones each of which differs from the one before, and
nothing more once it broke down. -/
theorem calls_alone {events : List Event} (hs : startsAgain c events = false) :
    ∃ l, (run c events).2.buzzer.calls = c.buzzer.calls ++ l ∧ (c.tone :: l).IsChain (· ≠ ·) ∧
      ∀ k < l.length, c.buzzer.breaksAt (c.buzzer.calls.length + k) = true → k + 1 = l.length := by
  induction events generalizing c with
  | nil => exact ⟨[], by simp [run], List.IsChain.singleton _, fun k hk => absurd hk k.not_lt_zero⟩
  | cons e es ih =>
    obtain ⟨-, hs⟩ := startsAgain_cons_eq_false.1 hs
    have he := turn h e
    have hr := reachable_apply h e
    obtain ⟨l, hl, hchain, hbreak⟩ := ih hr (he.config ▸ hm) hs
    rw [he.breaksAt] at hbreak
    cases he.tells hm with
    | nothing hcalls htone =>
      rw [htone] at hchain
      rw [hcalls] at hl hbreak
      exact ⟨l, hl, hchain, hbreak⟩
    | change hcalls htone hf =>
      rw [htone] at hchain
      rw [hcalls] at hl hbreak
      refine ⟨(!c.tone) :: l, ?_, List.isChain_cons_cons.2 ⟨by simp, hchain⟩, ?_⟩
      · simpa [run] using hl
      · intro k hk hbk
        cases k with
        | zero =>
          rw [Console.fails_eq hm] at hf
          rw [Nat.add_zero, hf] at hbk
          cases hbk
        | succ k =>
          have hlast := hbreak k (by simpa using hk) (by
            rw [List.length_append, List.length_singleton, Nat.add_assoc, Nat.add_comm 1]
            exact hbk)
          simpa using hlast
    | last hcalls hi' =>
      refine ⟨[!c.tone], ?_, List.isChain_cons_cons.2 ⟨by simp, List.IsChain.singleton _⟩, ?_⟩
      · exact (calls_of_idle hr hi' hs).trans hcalls
      · intro k hk _
        simpa using hk

end Event

namespace Session

variable {config : Config} {buzzer : Buzzer} {u : Supply} (s : Session config buzzer u)

theorem isTicking_opening : s.opening.isTicking = true := by
  simp [Console.isTicking, clock_opening, ClockThread.fresh]

theorem tone_opening : s.opening.tone = false := by
  simp [Console.tone, clock_opening, ClockThread.fresh]

end Session

/-- **The buzzer follows the tone.** One that is muted is told nothing. One that never breaks down
is told `true` and `false` in turn, and `false` last whenever no thread ticks: in a session it is
told of the changes in what the ticks of the timers find, and once more to be quiet if the last of
them found the tone sounding when the thread went. Whatever buzzer it is, in a session it is told
`true` and `false` in turn, and nothing more once it broke down. -/
theorem buzzer_follows_tone (config : Config) (buzzer : Buzzer) (u : Supply) :
    (config.muted = true → ∀ life,
      (Event.run (.new config buzzer u) life).2.buzzer.calls = buzzer.calls) ∧
    (config.muted = false → (∀ k, buzzer.breaksAt k = false) →
      (∀ life, ∃ n,
        (Event.run (.new config buzzer u) life).2.buzzer.calls =
          buzzer.calls ++ Buzzer.alternating n ∧
        ((Event.run (.new config buzzer u) life).2.isTicking = false → n % 2 = 0)) ∧
      ∀ s : Session config buzzer u,
        s.now.buzzer.calls = s.opening.buzzer.calls ++ Buzzer.changes false s.tones ++
          if s.now.isTicking = false ∧ s.tones.getLast? = some true then [false] else []) ∧
    (config.muted = false → ∀ s : Session config buzzer u, ∃ n,
      s.now.buzzer.calls = s.opening.buzzer.calls ++ Buzzer.alternating n ∧
      ∀ k < n, buzzer.breaksAt (s.opening.buzzer.calls.length + k) = true → k + 1 = n) := by
  have hnew : Reachable (Console.new config buzzer u).machine := .new config.wrap
  refine ⟨fun hm life => Event.calls_of_muted hnew hm life,
    fun hm hb => ⟨fun life => ?_, fun s => ?_⟩, fun hm s => ?_⟩
  · obtain ⟨l, hcalls, hchain, hlast⟩ := Event.calls_run hnew hm hb life
    have hl : l = Buzzer.alternating l.length := Buzzer.eq_alternating hchain
    refine ⟨l.length, hl ▸ hcalls, fun hi => ?_⟩
    have htone : l.getLastD false = false := hlast.trans (Console.tone_of_idle hi)
    rw [hl, Buzzer.getLastD_alternating] at htone
    simpa using htone
  · have hm' : s.opening.config.muted = false := by rw [s.config_opening, hm]
    have hb' : ∀ k, s.opening.buzzer.breaksAt k = false := by rw [s.breaksAt_opening]; exact hb
    have hcalls := Event.calls_session s.reachable_opening hm' hb' s.isTicking_opening s.alone
    rw [Buzzer.changes_append, s.tone_opening, ← List.append_assoc] at hcalls
    refine hcalls.trans (congrArg _ ?_)
    change Buzzer.changes (s.tones.getLastD false) (if s.now.isTicking then [] else [false]) = _
    cases s.now.isTicking with
    | true => simp [Buzzer.changes]
    | false =>
      rw [if_neg Bool.false_ne_true, Buzzer.changes_off]
      simp
  · have hm' : s.opening.config.muted = false := by rw [s.config_opening, hm]
    obtain ⟨l, hcalls, hchain, hbreak⟩ := Event.calls_alone s.reachable_opening hm' s.alone
    rw [s.tone_opening] at hchain
    rw [s.breaksAt_opening] at hbreak
    exact ⟨l.length, Buzzer.eq_alternating hchain ▸ hcalls, hbreak⟩

/-- A console whose clocks are stopped while the tone sounds. -/
def Session.humming : Session {} .recorder (.ofSeed 1) where
  past := [.call (.boot [0x60, 0x05, 0xF0, 0x18, 0x12, 0x04])]
  events := [.instructionTick, .instructionTick, .timerTick, .timerTick, .call .stop]
  starts := by decide +kernel
  alone := by decide +kernel

theorem buzzer_follows_tone_when_stopped_humming :
    ({} : Config).muted = false ∧ (∀ k, Buzzer.recorder.breaksAt k = false) ∧
      Session.humming.tones = [true, true] ∧
      Session.humming.now.isTicking = false ∧
      Session.humming.now.buzzer.calls = [true, false] := by
  obtain ⟨-, hquiet, -⟩ := buzzer_follows_tone {} .recorder (.ofSeed 1)
  obtain ⟨-, hsession⟩ := hquiet rfl fun _ => rfl
  have hcalls := hsession Session.humming
  have htones : Session.humming.tones = [true, true] := by decide +kernel
  have hidle : Session.humming.now.isTicking = false := by decide +kernel
  rw [htones, hidle] at hcalls
  exact ⟨rfl, fun _ => rfl, htones, hidle, hcalls⟩

end Chip8VM
