import Mathlib.Order.Bounds.Defs
import Chip8VM.Proofs.Console.Lifecycle

/-!
# The period of a clock

The period of a clock is found by a division. It can be made, because a clock that stands still is
refused (`Config.validate_eq_ok_iff`), and the clocks of a configuration that is refused never run
(`Event.validated_run`). The period is the greatest number of nanoseconds that leaves room for all
the ticks of a second (`Config.isGreatest_of_period?`), so that the clock is never slower than
asked, and a nanosecond more is too much (`Config.second_lt_of_period?`). A clock above
1000000000 Hz is not refused, though nothing is left of its period (`Config.period_pos_iff`).
-/

set_option autoImplicit false

namespace Chip8VM

/-! ## Rates and periods -/

namespace Config

/-- The rates of the two clocks. -/
def rates (config : Config) : List UInt32 := [config.instructionHz, config.timerHz]

theorem forall_mem_rates {config : Config} {P : UInt32 → Prop} :
    (∀ hz ∈ config.rates, P hz) ↔ P config.instructionHz ∧ P config.timerHz := by
  simp [rates]

theorem isSome_period?_iff {hz : UInt32} : (period? hz).isSome = true ↔ hz ≠ 0 := by
  unfold period?
  by_cases h : hz = 0 <;> simp [h]

/-- **A configuration is accepted** if both of its clocks have a period. -/
theorem validate_eq_ok_iff {config : Config} :
    config.validate = .ok () ↔ ∀ hz ∈ config.rates, (period? hz).isSome = true := by
  rw [validate_eq, forall_mem_rates, isSome_period?_iff, isSome_period?_iff]
  by_cases h : config.instructionHz = 0 ∨ config.timerHz = 0
  · rw [if_pos h]
    constructor
    · intro herror
      cases herror
    · exact fun hrates => absurd h (not_or.2 hrates)
  · rw [if_neg h]
    exact ⟨fun _ => not_or.1 h, fun _ => rfl⟩

section

variable {hz : UInt32} {p : Nat} (h : period? hz = some p)
include h

theorem period?_spec : 0 < hz.toNat ∧ p = second / hz.toNat := by
  unfold period? at h
  split at h
  · cases h
  · next hne =>
    refine ⟨Nat.pos_of_ne_zero fun hzero => hne (UInt32.toNat_inj.1 hzero), ?_⟩
    exact (Option.some.inj h).symm

/-- **No longer period** leaves room for all the ticks of a second. -/
theorem isGreatest_of_period? : IsGreatest {q | q * hz.toNat ≤ second} p := by
  obtain ⟨hpos, rfl⟩ := period?_spec h
  constructor
  · exact Nat.div_mul_le_self second hz.toNat
  · intro q hq
    exact (Nat.le_div_iff_mul_le hpos).2 hq

/-- A nanosecond more is too much. -/
theorem second_lt_of_period? : second < (p + 1) * hz.toNat := by
  obtain ⟨hpos, rfl⟩ := period?_spec h
  exact (Nat.div_lt_iff_lt_mul hpos).1 (Nat.lt_succ_self _)

/-- **A period is no time at all** if there are more ticks in a second than nanoseconds. -/
theorem period_pos_iff : 0 < p ↔ hz.toNat ≤ second := by
  obtain ⟨hpos, rfl⟩ := period?_spec h
  rw [Nat.div_pos_iff, and_iff_right hpos]

end

end Config

/-! ## Running clocks -/

/-- If the clocks of a console run then its configuration was accepted. -/
def Console.Validated (c : Console) : Prop := c.isRunning = true → c.config.validate = .ok ()

theorem Turn.validated {c c' : Console} {e : Event} (h : Turn c e c') (hv : c.Validated) :
    c'.Validated := by
  intro hr
  rw [h.isRunning, Bool.or_eq_true, Bool.and_eq_true] at hr
  rw [h.config]
  obtain ⟨hr, -⟩ | hs := hr
  · exact hv hr
  · -- The clocks were started just now, which asks for an accepted configuration.
    obtain ⟨-, hok⟩ := Event.eq_start_of_starts hs
    obtain ⟨-, hvalid, -⟩ | ⟨hno, -⟩ := c.start_cases
    · exact hvalid
    · rw [hok] at hno
      cases hno

theorem Event.validated_run {c : Console} (h : Reachable c.machine) (hv : c.Validated)
    (events : List Event) : (run c events).2.Validated := by
  induction events generalizing c with
  | nil => exact hv
  | cons e es ih => exact ih (reachable_apply h e) ((turn h e).validated hv)

/-- **The clocks of an accepted configuration keep pace.** The configurations that are accepted are
those both of whose clocks have a period, that is, for which the division can be made, and at no
time in the life of a console do clocks run with any other one. The period of an accepted clock is
the greatest number of nanoseconds with which as many ticks as asked fit into a second, and falls
short of the exact one by less than a nanosecond. It is not zero exactly if the clock asks for no
more ticks in a second than there are nanoseconds in it. -/
theorem accepted_clock_keeps_pace (config : Config) :
    (config.validate = .ok () ↔ ∀ hz ∈ config.rates, (Config.period? hz).isSome = true) ∧
    (∀ (buzzer : Buzzer) (u : Supply) (life : List Event),
      (Event.run (.new config buzzer u) life).2.isRunning = true → config.validate = .ok ()) ∧
    (config.validate = .ok () → ∀ hz ∈ config.rates,
      ∃ p, Config.period? hz = some p ∧ IsGreatest {q | q * hz.toNat ≤ Config.second} p ∧
        Config.second < (p + 1) * hz.toNat ∧ (0 < p ↔ hz.toNat ≤ Config.second)) := by
  refine ⟨Config.validate_eq_ok_iff, fun buzzer u life hr => ?_, fun hv hz hmem => ?_⟩
  · have hnew : (Console.new config buzzer u).Validated := by
      intro hruns
      cases hruns
    have hvalid := Event.validated_run (.new config.wrap) hnew life hr
    rwa [Event.config_run (c := .new config buzzer u) (.new config.wrap) life] at hvalid
  · obtain ⟨p, hp⟩ := Option.isSome_iff_exists.1 (Config.validate_eq_ok_iff.1 hv hz hmem)
    exact ⟨p, hp, Config.isGreatest_of_period? hp, Config.second_lt_of_period? hp,
      Config.period_pos_iff hp⟩

/-- The timers are counted down a little more often than 60 times a second. -/
theorem accepted_clock_keeps_pace_at_sixty :
    (Event.run (.new {} .silent (.ofSeed 1)) [.call .start]).2.isRunning = true ∧
      ({} : Config).validate = .ok () ∧ 60 ∈ ({} : Config).rates ∧
      Config.period? 60 = some 16666666 ∧
      IsGreatest {q | q * (60 : UInt32).toNat ≤ Config.second} 16666666 := by
  obtain ⟨-, hrun, hclock⟩ := accepted_clock_keeps_pace {}
  have hruns : (Event.run (.new {} .silent (.ofSeed 1)) [.call .start]).2.isRunning = true := rfl
  have haccepted : ({} : Config).validate = .ok () := hrun .silent (.ofSeed 1) _ hruns
  have hrate : 60 ∈ ({} : Config).rates := by decide
  have hperiod : Config.period? 60 = some 16666666 := by decide
  obtain ⟨p, hp, hgreatest, -⟩ := hclock haccepted 60 hrate
  rw [hperiod] at hp
  cases hp
  exact ⟨hruns, haccepted, hrate, hperiod, hgreatest⟩

/-- **A clock that is too fast** is accepted, and gets no time between its ticks. -/
theorem clock_above_gigahertz_gets_no_time :
    ¬ ∀ config : Config, config.validate = .ok () → ∀ hz ∈ config.rates,
      ∃ p, Config.period? hz = some p ∧ 0 < p ∧
        IsGreatest {q | q * hz.toNat ≤ Config.second} p := by
  intro hclaim
  let fast : Config := { instructionHz := 1000000001 }
  have haccepted : fast.validate = .ok () := by decide
  have hperiod : Config.period? fast.instructionHz = some 0 := by decide
  obtain ⟨p, hp, hpos, -⟩ := hclaim fast haccepted _ List.mem_cons_self
  rw [hperiod] at hp
  cases hp
  exact absurd hpos (Nat.lt_irrefl 0)

end Chip8VM
