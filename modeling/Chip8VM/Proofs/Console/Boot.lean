import Chip8VM.Proofs.Console.Schedule
import Chip8VM.Proofs.Machine.Newcomers
import Chip8VM.Proofs.Machine.Silence

/-!
# Starting afresh

A reset keeps two things, the way sprites wrap and the observers, and nothing else of what came
before. `Machine.afresh` is a machine as it is to those who come to it from now on; if two machines
are the same to them, whatever follows goes alike on both (`Machine.Alike`). After a reset, and
after a program was booted on a console, it is the machine that one gets from a new one
(`Machine.afresh_reset`, `Console.afresh_boot`).
-/

set_option autoImplicit false

namespace Chip8VM

/-- Machines that differ in their observers alone. -/
def Machine.SameBeside (m m' : Machine) : Prop := ∃ os, m' = m.withObservers os

namespace Operation

/-- Observers are silent to everybody else. -/
theorem silence_audience :
    Silence isOfAudience (fun _ _ => True) Machine.SameBeside where
  left := by
    rintro m _ u op hop ⟨os, rfl⟩
    obtain ⟨⟨os', hm⟩, -⟩ := apply_of_isOfAudience m u hop
    exact ⟨os, by rw [hm, Machine.withObservers_withObservers]⟩
  right := by
    rintro m _ u op hop ⟨os, rfl⟩
    obtain ⟨⟨os', hm⟩, -⟩ := apply_of_isOfAudience (m.withObservers os) u hop
    exact ⟨os', by rw [hm, Machine.withObservers_withObservers]⟩
  supply m u op hop := (apply_of_isOfAudience m u hop).2
  alike := by
    rintro m _ u op hop - ⟨os, rfl⟩
    rw [apply_withObservers]
    refine ⟨?_, ⟨_, rfl⟩, rfl⟩
    cases op with
    | subscribe | unsubscribe | receive | pending => cases hop
    | _ => rfl

end Operation

/-- Whatever follows goes alike on the machines, observers aside. -/
structure Machine.Alike (m m' : Machine) : Prop where
  /-- Whatever observers do on either of them, all else is answered alike, the same random bytes are
  taken, and the machines stay the same but for their observers. -/
  heard : ∀ (u : Supply) (ops ops' : List Operation),
    Operation.loud (·.isOfAudience) ops = Operation.loud (·.isOfAudience) ops' →
    Operation.heard (·.isOfAudience) ops (Operation.run m u ops).reply =
        Operation.heard (·.isOfAudience) ops' (Operation.run m' u ops').reply ∧
      (Operation.run m u ops).machine.SameBeside (Operation.run m' u ops').machine ∧
      (Operation.run m u ops).supply = (Operation.run m' u ops').supply
  /-- If those who come from now on do the same on both, they see the same. -/
  newcomers : ∀ (u : Supply) (ops ops' : List Operation),
    ops.filterMap (Operation.since? m.observers.joined) =
        ops'.filterMap (Operation.since? m'.observers.joined) →
    (Operation.journal m u ops).filterMap (Operation.entrySince? m.observers.joined) =
        (Operation.journal m' u ops').filterMap (Operation.entrySince? m'.observers.joined) ∧
      (Operation.run m u ops).machine.since m.observers.joined =
        (Operation.run m' u ops').machine.since m'.observers.joined ∧
      (Operation.run m u ops).supply = (Operation.run m' u ops').supply

/-- Whatever follows goes alike on the consoles, observers aside. -/
structure Console.Alike (c c' : Console) : Prop where
  machines : c.machine.Alike c'.machine
  /-- If the same is done to both machines in the course of events, clocks and sessions apart, all
  is answered alike and the machines stay the same but for their observers. -/
  lives : c.supply = c'.supply → ∀ events events' : List Event,
    Operation.loud (·.isOfAudience) (Event.history c events) =
        Operation.loud (·.isOfAudience) (Event.history c' events') →
    Operation.heard (·.isOfAudience) (Event.history c events)
          (Operation.run c.machine c.supply (Event.history c events)).reply =
        Operation.heard (·.isOfAudience) (Event.history c' events')
          (Operation.run c'.machine c'.supply (Event.history c' events')).reply ∧
      (Event.run c events).2.machine.SameBeside (Event.run c' events').2.machine ∧
      (Event.run c events).2.supply = (Event.run c' events').2.supply

namespace Machine

/-- The machine as it is to those who come to it from now on. -/
def afresh (m : Machine) : Machine := m.since m.observers.joined

theorem Alike.of_afresh {m m' : Machine} (h : m.afresh = m'.afresh) : m.Alike m' where
  heard u ops ops' hloud := by
    have hbeside : m.SameBeside m' := by
      have hm := congrArg (·.withObservers m'.observers) h
      exact ⟨m'.observers, hm.symm⟩
    exact Operation.silence_audience.run hbeside u (.of_loud hloud) fun _ _ => trivial
  newcomers u ops ops' hops := by
    obtain ⟨hm, hs, hjournal⟩ := Operation.run_since (Nat.le_refl m.observers.joined) u ops
    obtain ⟨hm', hs', hjournal'⟩ := Operation.run_since (Nat.le_refl m'.observers.joined) u ops'
    rw [← hjournal, ← hjournal', ← hm, ← hm', ← hs, ← hs', hops]
    rw [afresh, afresh] at h
    rw [h]
    exact ⟨rfl, rfl, rfl⟩

theorem afresh_reset {m : Machine} (hm : Reachable m) : m.reset.afresh = new m.wrap :=
  since_reset hm.numbered

end Machine

theorem Console.Alike.of_afresh {c c' : Console} (h : c.machine.afresh = c'.machine.afresh) :
    c.Alike c' where
  machines := .of_afresh h
  lives hsupply events events' hloud := by
    obtain ⟨hm, hs⟩ := Prod.mk.inj (Event.core_run c events)
    obtain ⟨hm', hs'⟩ := Prod.mk.inj (Event.core_run c' events')
    rw [hm, hs, hm', hs', ← hsupply]
    exact (Machine.Alike.of_afresh h).heard c.supply _ _ hloud

/-! ## What a reset keeps -/

theorem Operation.wrap_apply (m : Machine) (u : Supply) (op : Operation) :
    (op.apply m u).machine.wrap = m.wrap := by
  by_cases hs : op = .step
  · subst hs
    have ho := m.step_outcome u
    simp only [apply]
    generalize m.step u = a at ho ⊢
    cases ho <;> rfl
  · have hc := change m u hs
    generalize (op.apply m u).machine = m' at hc ⊢
    cases hc <;> rfl

theorem Operation.wrap_run (m : Machine) (u : Supply) (ops : List Operation) :
    (run m u ops).machine.wrap = m.wrap := by
  induction ops generalizing m u with
  | nil => rfl
  | cons op ops ih => exact (ih _ _).trans (wrap_apply m u op)

/-- An observer that is there when the machine is reset goes on as if nothing had happened. -/
theorem Operation.inbox_reset {m : Machine} (hm : Reachable m) {o : Observer}
    (ho : o ∈ m.observers.present) (hg : o.gone = false) (u : Supply) {ops : List Operation}
    (hops : .unsubscribe o.id ∉ ops) :
    ∃ o' ∈ (run m.reset u ops).machine.observers.present, o.Stays o' ∧
      ∀ read, (journal m.reset u ops).foldl (Inbox.after o.id o.capacity) (o.inbox read) =
        o'.inbox (read ++ received o.id (journal m.reset u ops)) :=
  inbox_run (m := m.reset) hm.numbered ho hg u hops

/-! ## Booting -/

/-- Whether a call boots the machine. -/
def Call.isBoot : Call → Bool
  | .boot _ | .bootFrom _ => true
  | _ => false

namespace Operation

theorem load_afresh (m : Machine) (u : Supply) (image : List UInt8) :
    settle m.afresh u (m.afresh.load image) =
      ⟨(settle m u (m.load image)).reply, (settle m u (m.load image)).machine.afresh, u⟩ := by
  simp only [Machine.load_eq]
  split <;> rfl

theorem loadFrom_afresh (m : Machine) (u : Supply) (source : Reader) :
    settle m.afresh u (m.afresh.loadFrom source) =
      ⟨(settle m u (m.loadFrom source)).reply, (settle m u (m.loadFrom source)).machine.afresh,
        u⟩ := by
  unfold Machine.loadFrom
  cases source.readAll with
  | error reason => rfl
  | ok image => exact load_afresh m u image

/-- **A boot** does to a machine what it does to a new one. -/
theorem boot_afresh {m : Machine} (hm : Reachable m) {k : Call} (hk : k.isBoot = true)
    (u v : Supply) :
    (run m u k.operations).machine.afresh = (run (.new m.wrap) v k.operations).machine.afresh ∧
      (run m u k.operations).reply = (run (.new m.wrap) v k.operations).reply := by
  have hnew : (Machine.new m.wrap).reset.afresh = m.reset.afresh :=
    (Machine.afresh_reset (.new m.wrap)).trans (Machine.afresh_reset hm).symm
  cases k with
  | boot image =>
    have h := load_afresh (Machine.new m.wrap).reset u image
    rw [hnew, load_afresh] at h
    obtain ⟨hreply, hmachine, -⟩ := After.mk.inj h
    exact ⟨hmachine, congrArg ([Reply.done, ·]) hreply⟩
  | bootFrom source =>
    have h := loadFrom_afresh (Machine.new m.wrap).reset u source
    rw [hnew, loadFrom_afresh] at h
    obtain ⟨hreply, hmachine, -⟩ := After.mk.inj h
    exact ⟨hmachine, congrArg ([Reply.done, ·]) hreply⟩
  | _ => cases hk

end Operation

namespace Console.Sound

variable {c : Console} (h : c.Sound)
include h

theorem resetThen_eq (prepare : Machine → Except Error Machine) :
    c.resetThen prepare =
      match prepare c.machine.reset with
      | .ok m => (.ok (), { c with machine := m })
      | .error e => (.error e, { c with machine := c.machine.reset }) := by
  rw [resetThen, h.valid, lock_of_free h.free]
  rfl

theorem boot_of_fits {image : List UInt8} (hi : image.length ≤ 3584) :
    (Call.boot image).apply c = (.done, { c with machine := c.machine.reset.loaded image }) := by
  have hload := c.machine.reset.load_eq image
  rw [if_neg (by omega)] at hload
  rw [Call.apply, boot, h.resetThen_eq, hload]
  rfl

theorem boot_of_tooLarge {image : List UInt8} (hi : 3584 < image.length) :
    (Call.boot image).apply c =
      (.failed (.imageTooLarge image.length 3584), { c with machine := c.machine.reset }) := by
  have hload := c.machine.reset.load_eq image
  rw [if_pos hi] at hload
  rw [Call.apply, boot, h.resetThen_eq, hload]
  rfl

theorem bootFrom_of_unreadable {source : Reader} {reason : String}
    (hs : source.readAll = .error reason) :
    (Call.bootFrom source).apply c =
      (.failed (.unreadable reason), { c with machine := c.machine.reset }) := by
  rw [Call.apply, bootFrom, h.resetThen_eq, Machine.loadFrom, hs]
  rfl

theorem bootFrom_of_read {source : Reader} {image : List UInt8}
    (hs : source.readAll = .ok image) :
    (Call.bootFrom source).apply c = (Call.boot image).apply c := by
  simp only [Call.apply, Call.answer, bootFrom, boot, h.resetThen_eq, Machine.loadFrom, hs]
  rfl

theorem apply_boot {k : Call} (hk : k.isBoot = true) :
    (k.apply c).2.machine = (Operation.run c.machine c.supply k.operations).machine ∧
      some (k.apply c).1 = (Operation.run c.machine c.supply k.operations).reply.getLast? := by
  have hdeed : k.isDeed = true := by cases k <;> first | rfl | cases hk
  have hreply := Call.reply_apply (k.operations_ne_nil_iff.2 hdeed) (h.call_reaches k)
  have hm := Event.machine_apply c (.call k)
  rw [h.operations_eq, Event.reaches, hdeed] at hm
  exact ⟨hm, hreply.symm⟩

end Console.Sound

/-- Memory after a program was loaded into a machine that was reset. -/
theorem Machine.memory_reset_loaded (m : Machine) (image : List UInt8) {a : Nat} (h : a < 4096) :
    (m.reset.loaded image).state.memory.bytes[a] =
      if 0x200 ≤ a then (image[a - 0x200]?).getD Memory.powerOn.bytes[a]
      else Memory.powerOn.bytes[a] := by
  have hstore := Memory.getElem_store .powerOn 0x200 image a h
  refine hstore.trans ?_
  by_cases ha : 0x200 ≤ a
  · rw [if_pos ha]
    split
    · next hb => rw [List.getElem?_eq_getElem (by omega), Option.getD_some]
    · next hb => rw [List.getElem?_eq_none (by omega), Option.getD_none]
  · rw [if_neg ha, dif_neg fun hb => ha hb.1]

theorem Config.validate_eq_error {config : Config} (h : config.validate ≠ .ok ()) :
    config.validate = .error (.clockRate 0) := by
  rw [validate_eq] at h ⊢
  split at h
  · next hz => rw [if_pos hz]
  · exact absurd rfl h

theorem Console.resetThen_of_invalid {c : Console} (h : c.config.validate ≠ .ok ())
    (prepare : Machine → Except Error Machine) :
    c.resetThen prepare = (.error (.clockRate 0), c) := by
  rw [resetThen, Config.validate_eq_error h]
  rfl

/-! ## Every life -/

/-- What a boot answers and leaves behind on a console, whatever has happened to it before. -/
structure Console.BootsAfresh (wrap : Wrap) (c : Console) : Prop where
  fits : ∀ image : List UInt8, image.length ≤ 3584 →
    (Call.boot image).apply c =
      (.done, { c with
        machine := ((Machine.new wrap).withObservers c.machine.observers).loaded image })
  /-- Of a program that was there before no byte is left. -/
  memory : ∀ image : List UInt8, image.length ≤ 3584 → ∀ a (h : a < 4096),
    ((Call.boot image).apply c).2.machine.state.memory.bytes[a] =
      if 0x200 ≤ a then (image[a - 0x200]?).getD Memory.powerOn.bytes[a]
      else Memory.powerOn.bytes[a]
  tooLarge : ∀ image : List UInt8, 3584 < image.length →
    (Call.boot image).apply c =
      (.failed (.imageTooLarge image.length 3584),
        { c with machine := (Machine.new wrap).withObservers c.machine.observers })
  unreadable : ∀ (source : Reader) (reason : String), source.readAll = .error reason →
    (Call.bootFrom source).apply c =
      (.failed (.unreadable reason),
        { c with machine := (Machine.new wrap).withObservers c.machine.observers })
  read : ∀ (source : Reader) (image : List UInt8), source.readAll = .ok image →
    (Call.bootFrom source).apply c = (Call.boot image).apply c
  unpaused : ∀ k : Call, k.isBoot = true → (k.apply c).2.machine.paused = false

theorem Console.Sound.bootsAfresh {c : Console} (h : c.Sound) : c.BootsAfresh c.machine.wrap where
  fits _ hi := h.boot_of_fits hi
  memory image hi a ha := by
    rw [h.boot_of_fits hi]
    exact c.machine.memory_reset_loaded image ha
  tooLarge _ hi := h.boot_of_tooLarge hi
  unreadable _ _ hs := h.bootFrom_of_unreadable hs
  read _ _ hs := h.bootFrom_of_read hs
  unpaused k hk := by
    have hboot : ∀ image, ((Call.boot image).apply c).2.machine.paused = false := by
      intro image
      by_cases hi : image.length ≤ 3584
      · rw [h.boot_of_fits hi]
        rfl
      · rw [h.boot_of_tooLarge (Nat.lt_of_not_le hi)]
        rfl
    cases k with
    | boot image => exact hboot image
    | bootFrom source =>
      cases hs : source.readAll with
      | error reason =>
        rw [h.bootFrom_of_unreadable hs]
        rfl
      | ok image =>
        rw [h.bootFrom_of_read hs]
        exact hboot image
    | _ => cases hk

namespace Schedule

variable {wrap : Wrap} {u : Supply} (s : Schedule wrap u)

theorem wrap_now : s.now.machine.wrap = wrap := by
  rw [now, Event.machine_run, Operation.wrap_run, machine_console]
  rfl

theorem boot_now {k : Call} (hk : k.isBoot = true) (v : Supply) :
    some (k.apply s.now).1 = (Operation.run (.new wrap) v k.operations).reply.getLast? ∧
      (k.apply s.now).2.machine.afresh =
        (Operation.run (.new wrap) v k.operations).machine.afresh := by
  obtain ⟨hm, hreply⟩ := s.sound_now.apply_boot hk
  obtain ⟨hafresh, hreplies⟩ :=
    Operation.boot_afresh s.sound_now.reachable hk s.now.supply v
  rw [s.wrap_now] at hafresh hreplies
  exact ⟨hreplies ▸ hreply, hm ▸ hafresh⟩

end Schedule

/-- **Nothing survives a reset** but the way sprites wrap and the observers. Machines that wrap
alike go alike once they are reset, whatever histories they have, and so does a new machine; who
observed one before goes on observing it. The same holds of consoles on which the same program is
booted, after any lives in which nobody died who held the machine, and whether or not the boot
succeeds. A boot leaves nothing in memory of what was there before and lets the machine go on; if
the program cannot be read or is too large the machine is as it was at power-on. A console whose
clocks cannot run is left as it was. -/
theorem nothing_survives_a_reset :
    (∀ m m' : Machine, Reachable m → Reachable m' → m.wrap = m'.wrap → m.reset.Alike m'.reset) ∧
    (∀ m : Machine, Reachable m → m.reset.Alike (.new m.wrap) ∧
      ∀ o ∈ m.observers.present, o.gone = false → ∀ (u : Supply) (ops : List Operation),
        .unsubscribe o.id ∉ ops →
        ∃ o' ∈ (Operation.run m.reset u ops).machine.observers.present, o.Stays o' ∧
          ∀ read, (Operation.journal m.reset u ops).foldl (Inbox.after o.id o.capacity)
              (o.inbox read) =
            o'.inbox (read ++ Operation.received o.id (Operation.journal m.reset u ops))) ∧
    (∀ (wrap : Wrap) (u u' v : Supply) (s : Schedule wrap u) (t : Schedule wrap u') (k : Call),
      k.isBoot = true →
      (k.apply s.now).1 = (k.apply t.now).1 ∧
      (k.apply s.now).2.Alike (k.apply t.now).2 ∧
      some (k.apply s.now).1 = (Operation.run (.new wrap) v k.operations).reply.getLast? ∧
      (k.apply s.now).2.machine.Alike (Operation.run (.new wrap) v k.operations).machine) ∧
    (∀ (wrap : Wrap) (u : Supply) (s : Schedule wrap u), s.now.BootsAfresh wrap) ∧
    ∀ (config : Config) (buzzer : Buzzer) (u : Supply) (life : List Event) (k : Call),
      config.validate ≠ .ok () → k.isBoot = true →
      k.apply (Event.run (.new config buzzer u) life).2 =
        (.failed (.clockRate 0), (Event.run (.new config buzzer u) life).2) := by
  refine ⟨fun m m' hm hm' hw => .of_afresh ?_, fun m hm => ⟨.of_afresh ?_, ?_⟩,
    fun wrap u u' v s t k hk => ?_, fun wrap u s => ?_, fun config buzzer u life k hc hk => ?_⟩
  · rw [Machine.afresh_reset hm, Machine.afresh_reset hm', hw]
  · exact Machine.afresh_reset hm
  · intro o ho hg u ops hops
    exact Operation.inbox_reset hm ho hg u hops
  · obtain ⟨hs, hsafresh⟩ := s.boot_now hk v
    obtain ⟨ht, htafresh⟩ := t.boot_now hk v
    exact ⟨Option.some.inj (hs.trans ht.symm), .of_afresh (hsafresh.trans htafresh.symm), hs,
      .of_afresh hsafresh⟩
  · have hboots := s.sound_now.bootsAfresh
    rwa [s.wrap_now] at hboots
  · have hnew : Reachable (Console.new config buzzer u).machine := .new config.wrap
    have hconfig : (Event.run (.new config buzzer u) life).2.config = config :=
      Event.config_run hnew life
    have hrefused := Console.resetThen_of_invalid (hconfig.symm ▸ hc)
    cases k with
    | boot image => exact congrArg (Call.answer _) (hrefused (·.load image))
    | bootFrom source => exact congrArg (Call.answer _) (hrefused (·.loadFrom source))
    | _ => cases hk

/-- A machine that is paused, with a key down, an observer that has not read, and a long program. -/
def Schedule.untidy : Schedule .flat (.ofSeed 2) where
  config := {}
  buzzer := .recorder
  life := [.call (.subscribe 4), .call (.boot [0x60, 0x05, 0xF0, 0x18, 0xD0, 0x05]), .call .start,
    .instructionTick, .instructionTick, .timerTick, .instructionTick, .call (.press 0x7),
    .call .pause]
  wraps := Schedule.steady.wraps
  valid := Schedule.steady.valid
  calm := by decide

theorem nothing_survives_when_untidy :
    let m := Schedule.untidy.now.machine
    let k := Call.boot [0xF1, 0x0A]
    let c := (Event.run (.new { timerHz := 0 } .recorder (.ofSeed 1)) [.call (.press 0x7)]).2
    (Reachable m ∧ Reachable Schedule.steady.now.machine ∧
      m.wrap = Schedule.steady.now.machine.wrap ∧ k.isBoot = true ∧
      ({ timerHz := 0 } : Config).validate ≠ .ok ()) ∧
    m.reset.Alike Schedule.steady.now.machine.reset ∧
    (k.apply Schedule.untidy.now).2.Alike (k.apply Schedule.steady.now).2 ∧
    (k.apply Schedule.untidy.now).2.machine.state.memory.bytes[0x202] = 0 ∧
    (k.apply Schedule.untidy.now).2.machine.paused = false ∧
    k.apply c = (.failed (.clockRate 0), c) := by
  intro m k c
  obtain ⟨hreset, -, hboot, hafresh, hinvalid⟩ := nothing_survives_a_reset
  have hm : Reachable m := Schedule.untidy.sound_now.reachable
  have hm' : Reachable Schedule.steady.now.machine := Schedule.steady.sound_now.reachable
  have hw : m.wrap = Schedule.steady.now.machine.wrap :=
    Schedule.untidy.wrap_now.trans Schedule.steady.wrap_now.symm
  have hc : ({ timerHz := 0 } : Config).validate ≠ .ok () := by decide
  obtain ⟨-, halike, -⟩ :=
    hboot .flat (.ofSeed 2) (.ofSeed 1) (.ofSeed 1) Schedule.untidy Schedule.steady k rfl
  have hfacts := hafresh .flat (.ofSeed 2) Schedule.untidy
  refine ⟨⟨hm, hm', hw, rfl, hc⟩, hreset _ _ hm hm' hw, halike, ?_, hfacts.unpaused k rfl,
    hinvalid _ _ _ _ k hc rfl⟩
  rw [hfacts.memory [0xF1, 0x0A] (by decide) 0x202 (by decide)]
  decide +kernel

end Chip8VM
