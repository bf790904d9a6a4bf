import Chip8VM.Proofs.CommandLine.Held
import Chip8VM.Proofs.Console.Boot
import Chip8VM.Proofs.Console.Playing
import Chip8VM.Proofs.Machine.Keys
import Chip8VM.Runner

/-!
# What comes of a run

A run fails if there is no program file, if the instruction clock is to stand still, or if the
program cannot be read or is too large, which is looked at in this order; otherwise it comes to an
end. All that the runner does between the start of the clocks and their stop is to let them tick and
to look at the machine (`Progress.runFor_watched`). So the frame at the end is that of a machine of
its own with the program in memory and the keys down (`Runner.setUp`), on which some steps and ticks
are carried out.
-/

set_option autoImplicit false

namespace Chip8VM

/-! ## Time passes -/

namespace Timeline

theorem tick_watched (t : Timeline) : t.console.Watched t.tick.console := by
  unfold tick
  split
  · exact .of_event t.console (e := .instructionTick) rfl
  · exact .of_event t.console (e := .timerTick) rfl

theorem waitUntil_watched (holds : Console → Bool) (deadline : Nat) (t : Timeline) :
    t.console.Watched (t.waitUntil holds deadline).2.console := by
  fun_induction waitUntil holds deadline t with
  | case1 => exact .refl _
  | case2 t _ _ _ ih => exact t.tick_watched.trans ih
  | case3 => exact .refl _

theorem sleep_eq (t : Timeline) (millis : Nat) :
    t.sleep millis = (t.waitUntil (fun _ => false) (t.now + millis * millisecond)).2 := by
  -- The functions are compared as they stand: at an argument the recursion would be run first.
  have hsleep : sleep = fun t millis =>
      (t.waitUntil (fun _ => false) (t.now + millis * millisecond)).2 := rfl
  exact congrFun (congrFun hsleep t) millis

theorem sleep_watched (t : Timeline) (millis : Nat) :
    t.console.Watched (t.sleep millis).console := by
  rw [sleep_eq]
  exact t.waitUntil_watched _ _

end Timeline

namespace Console

theorem Watched.playing {c c' : Console} (h : c.Watched c') (hc : c.Playing) : c'.Playing := by
  obtain ⟨events, hevents, rfl⟩ := h
  exact hc.run hevents

theorem Playing.takeFrame {c : Console} (h : c.Playing) :
    ∃ f c', c.takeFrame = (.ok f, c') ∧ c.Watched c' := by
  have hwatched := Watched.of_event c (e := .call .takeFrame) rfl
  refine ⟨c.machine.takeFrame.1, _, ?_, hwatched⟩
  show c.takeFrame = (_, c.takeFrame.2)
  simp only [Console.takeFrame, change, lock_of_free h.free]

end Console

namespace Runner

open CommandLine (Arguments AreKeys)

/-! ## Polling -/

namespace Progress

variable {p : Progress} (hp : p.timeline.console.Playing)
include hp

theorem count_watched : p.timeline.console.Watched p.count.timeline.console :=
  .drain hp.reachable.numbered p.observer

theorem poll_watched :
    ∃ p', p.poll = .ok p' ∧ p.timeline.console.Watched p'.timeline.console := by
  have hcount := count_watched hp
  obtain ⟨f, c, htake, hwatched⟩ := (hcount.playing hp).takeFrame
  refine ⟨⟨{ p.count.timeline with console := c }, p.count.observer, p.count.executed,
    p.count.frames ++ f.toList⟩, ?_, hcount.trans hwatched⟩
  simp only [poll, htake]
  rfl

/-- **Polling goes well**, for however long, and does no more than to let the clocks tick and to
look at the machine. -/
theorem runFor_watched (millis : Nat) :
    ∃ p', p.runFor millis = .ok p' ∧ p.timeline.console.Watched p'.timeline.console := by
  induction millis using Nat.strongRecOn generalizing p with
  | _ millis ih =>
    unfold runFor
    by_cases hz : millis = 0
    · rw [dif_pos hz]
      exact ⟨p, rfl, .refl _⟩
    · have hsleep := p.timeline.sleep_watched (min pollInterval millis)
      obtain ⟨p₁, hpoll, hwatched⟩ :=
        poll_watched (p := { p with timeline := p.timeline.sleep (min pollInterval millis) })
          (hsleep.playing hp)
      have hlt : millis - min pollInterval millis < millis := by
        unfold pollInterval
        omega
      have hp₁ := (hsleep.trans hwatched).playing hp
      obtain ⟨p', hrest, hwatched'⟩ := ih _ hlt hp₁
      refine ⟨p', ?_, (hsleep.trans hwatched).trans hwatched'⟩
      rw [dif_neg hz]
      show (poll _ >>= fun p => p.runFor _) = _
      rw [hpoll]
      exact hrest

/-- The clocks are stopped, and the frame is the one on the screen. -/
theorem finish_eq :
    ∃ outcome, p.finish = .ok outcome ∧
      outcome.final = p.timeline.console.machine.state.frame ∧
      outcome.console.buzzer.calls = [] := by
  let q : Progress := Progress.count { p with
    timeline := { p.timeline with console := { p.timeline.console with clock := none } } }
  have hframe : q.timeline.console.frame = .ok p.timeline.console.machine.state.frame := by
    rw [Console.frame, Console.inspect, Console.lock_of_free (c := q.timeline.console) hp.free]
    rfl
  refine ⟨⟨q.frames, q.executed, q.timeline.console, p.timeline.console.machine.state.frame⟩, ?_,
    rfl, hp.untold⟩
  simp only [finish, hp.stop_eq]
  show (q.timeline.console.frame >>= fun final => _) = _
  rw [hframe]
  rfl

end Progress

/-! ## Getting ready -/

/-- What is done to the machine before the clocks are started. -/
def setUp (args : Arguments) (image : List UInt8) : List Operation :=
  .load image :: args.hold.map .press

/-- The console that is ready to play a program. -/
def ready (args : Arguments) (supply : Supply) (image : List UInt8) : Console :=
  { Console.new args.config .silent supply with
    machine := (Operation.run (.new args.config.wrap) supply (setUp args image)).machine }

theorem sound_new {args : Arguments} (hz : args.hz ≠ 0) (supply : Supply) :
    (Console.new args.config .silent supply).Sound := by
  refine ⟨.new _, ?_, rfl⟩
  rw [Config.validate_eq, if_neg]
  rintro (h | h)
  · exact hz h
  · cases h

theorem foldlM_press {c : Console} (hc : c.poisoned = false) {keys : List UInt8}
    (hkeys : AreKeys keys) :
    keys.foldlM (fun c key => do let (pressed, c) := c.press key; pressed; return c) c =
      (.ok { c with machine := (Operation.run c.machine c.supply (keys.map .press)).machine } :
        Except Error Console) := by
  induction keys generalizing c with
  | nil => rfl
  | cons key keys ih =>
    have hkey : key.toNat < 16 := hkeys key List.mem_cons_self
    have hset : c.machine.press key = .ok (c.machine.keyed ⟨key.toNat, hkey⟩ true) := by
      rw [Machine.press, Machine.setKey_eq, dif_pos hkey]
    have hpress : c.press key =
        (.ok (), { c with machine := c.machine.keyed ⟨key.toNat, hkey⟩ true }) := by
      simp only [Console.press, Console.attempt, Console.lock_of_free hc, Except.bind, hset]
    rw [List.foldlM_cons, hpress]
    refine (ih (c := { c with machine := c.machine.keyed ⟨key.toNat, hkey⟩ true }) hc
      fun k hk => hkeys k (List.mem_cons_of_mem _ hk)).trans ?_
    simp only [List.map_cons, Operation.run, Operation.apply, hset]
    rfl

section

variable {args : Arguments} {reader : Reader} (supply : Supply)

theorem prepare_of_still (hz : args.hz = 0) :
    prepare args reader supply = .error (.clockRate 0) := by
  have hvalid : args.config.validate ≠ .ok () := by
    rw [Config.validate_eq, if_pos (.inl hz)]
    nofun
  have hboot := Console.resetThen_of_invalid (c := .new args.config .silent supply) hvalid
    (·.loadFrom reader)
  simp only [prepare, Console.bootFrom, hboot]
  rfl

variable (hz : args.hz ≠ 0)
include hz

theorem prepare_of_unreadable {reason : String} (hr : reader.readAll = .error reason) :
    prepare args reader supply = .error (.unreadable reason) := by
  simp only [prepare, Console.bootFrom, (sound_new hz supply).resetThen_eq, Machine.loadFrom, hr]
  rfl

variable {image : List UInt8} (hr : reader.readAll = .ok image)
include hr

theorem bootFrom_new :
    (Console.new args.config .silent supply).bootFrom reader =
      if image.length > 3584 then
        (.error (.imageTooLarge image.length 3584), .new args.config .silent supply)
      else
        (.ok (), { Console.new args.config .silent supply with
          machine := (Machine.new args.config.wrap).loaded image }) := by
  have hload : (Console.new args.config .silent supply).machine.reset.loadFrom reader =
      (Machine.new args.config.wrap).load image := by
    simp only [Machine.loadFrom, hr]
    rfl
  rw [Console.bootFrom, (sound_new hz supply).resetThen_eq, hload, Machine.load_eq]
  by_cases hi : image.length > 3584
  · rw [if_pos hi, if_pos hi]
    rfl
  · rw [if_neg hi, if_neg hi]

theorem prepare_of_tooLarge (hi : 3584 < image.length) :
    prepare args reader supply = .error (.imageTooLarge image.length 3584) := by
  have hboot := bootFrom_new supply hz hr
  rw [if_pos hi] at hboot
  simp only [prepare, hboot]
  rfl

theorem prepare_of_fits (hkeys : AreKeys args.hold) (hi : image.length ≤ 3584) :
    prepare args reader supply = .ok (ready args supply image) := by
  have hboot := bootFrom_new supply hz hr
  rw [if_neg (Nat.not_lt_of_le hi)] at hboot
  have hload := (Machine.new args.config.wrap).load_eq image
  rw [if_neg (Nat.not_lt_of_le hi)] at hload
  simp only [prepare, hboot]
  refine (foldlM_press rfl hkeys).trans ?_
  simp only [ready, setUp, Operation.run, Operation.apply, hload]
  rfl

end

/-! ## Starting -/

/-- The console once a new observer has come and the clocks were started. -/
def opened (c : Console) (capacity : Nat) : Console :=
  { c with machine := (c.machine.subscribe capacity).2, clock := some .fresh }

section

variable {c : Console} (hc : c.Sound) (capacity : Nat)
include hc

theorem subscribe_eq :
    c.subscribe capacity =
      (.ok (c.machine.subscribe capacity).1,
        { c with machine := (c.machine.subscribe capacity).2 }) := by
  simp only [Console.subscribe, Console.change, Console.lock_of_free hc.free]

theorem playing_opened (hmuted : c.config.muted = true) (huntold : c.buzzer.calls = []) :
    (opened c capacity).Playing where
  reachable := hc.reachable.apply c.supply (.subscribe capacity)
  valid := hc.valid
  free := hc.free
  muted := hmuted
  ticking := rfl
  untold := huntold

variable (hstill : c.clock = none)
include hstill

theorem start_subscribed :
    ({ c with machine := (c.machine.subscribe capacity).2 } : Console).start =
      (.ok (), opened c capacity) := by
  simp only [Console.start, Console.isRunning, hstill, hc.valid]
  rfl

theorem run_opening (events : List Event) :
    Event.run c (.call (.subscribe capacity) :: .call .start :: events) =
      (.number (c.machine.subscribe capacity).1 :: .done ::
          (Event.run (opened c capacity) events).1,
        (Event.run (opened c capacity) events).2) := by
  simp only [Event.run, Event.apply, Call.apply, Call.answer, subscribe_eq hc capacity,
    start_subscribed hc capacity hstill, Reply.ofExcept]

theorem begin_eq :
    ∃ p, begin c = .ok p ∧ p.timeline.console = opened c cycleCapacity := by
  simp only [begin, subscribe_eq hc cycleCapacity, Timeline.start, Timeline.new,
    start_subscribed hc cycleCapacity hstill]
  exact ⟨_, rfl, rfl⟩

end

/-! ## The machine of a run -/

/-- A machine of its own: the program is loaded, the keys are put down, and operations follow. -/
def bare (args : Arguments) (supply : Supply) (image : List UInt8) (ops : List Operation) :
    Machine :=
  (Operation.run (.new (if args.toroidal then .toroidal else .flat)) supply
    (.load image :: args.hold.map .press ++ ops)).machine

theorem supply_run_setUp (m : Machine) (supply : Supply) (args : Arguments) (image : List UInt8) :
    (Operation.run m supply (setUp args image)).supply = supply := by
  have hpress : ∀ (keys : List UInt8) (m : Machine),
      (Operation.run m supply (keys.map .press)).supply = supply := by
    intro keys
    induction keys with
    | nil => exact fun _ => rfl
    | cons key keys ih => exact fun m => ih _
  exact hpress args.hold _

theorem bare_eq (args : Arguments) (supply : Supply) (image : List UInt8) (ops : List Operation) :
    bare args supply image ops =
      (Operation.run (ready args supply image).machine supply ops).machine := by
  have happend := Operation.run_append (.new args.config.wrap) supply (setUp args image) ops
  rw [supply_run_setUp] at happend
  have hmachine := congrArg After.machine happend
  exact hmachine

/-- What the keys of a run are, whatever steps and ticks follow. -/
theorem isKeyDown_bare {args : Arguments} (hkeys : AreKeys args.hold) (supply : Supply)
    (image : List UInt8) {ops : List Operation} (hops : ∀ op ∈ ops, op = .step ∨ op = .tick)
    (key : UInt8) : (bare args supply image ops).isKeyDown key = true ↔ key ∈ args.hold := by
  by_cases hkey : key.toNat < 16
  · have hpressing : ∀ op ∈ .load image :: args.hold.map .press ++ ops,
        op ≠ .reset ∧ ∀ k, op ≠ .release k := by
      intro op hop
      rcases List.mem_append.1 hop with hop | hop
      · rcases List.mem_cons.1 hop with rfl | hop
        · simp
        · obtain ⟨k, -, rfl⟩ := List.mem_map.1 hop
          simp
      · rcases hops op hop with rfl | rfl <;> simp
    rw [bare, Operation.isKeyDown_run_of_pressing _ supply hpressing hkey]
    have hup : (Machine.new (if args.toroidal then .toroidal else .flat)).isKeyDown key = false :=
      Keypad.isDown_idle key.toNat
    have hnot : .press key ∉ ops := by
      intro hmem
      rcases hops _ hmem with h | h <;> cases h
    simp [hup, hnot]
  · rw [Machine.isKeyDown, Keypad.isDown_of_ge _ (Nat.le_of_not_lt hkey)]
    exact ⟨fun hdown => absurd hdown Bool.false_ne_true, fun hmem => absurd (hkeys key hmem) hkey⟩

section

variable {args : Arguments} (hz : args.hz ≠ 0) (supply : Supply) (image : List UInt8)
include hz

theorem sound_ready : (ready args supply image).Sound :=
  ⟨(Reachable.new _).run supply _, (sound_new hz supply).valid, rfl⟩

theorem playing_ready (capacity : Nat) : (opened (ready args supply image) capacity).Playing :=
  playing_opened (sound_ready hz supply image) capacity rfl rfl

/-- Whatever the schedule, and whoever looks on, the ticks alone tell what is on the screen. -/
theorem frame_run_opened (capacity : Nat) {events : List Event}
    (hevents : ∀ e ∈ events, e.isWatch = true) :
    (Event.run (opened (ready args supply image) capacity) events).2.machine.state.frame =
      (bare args supply image (events.filterMap Event.tick?)).state.frame := by
  have hsame : (opened (ready args supply image) capacity).machine.SameUnwatched
      (ready args supply image).machine :=
    ⟨_, _, rfl⟩
  obtain ⟨drawn, os, hbare⟩ :=
    (playing_ready hz supply image capacity).sameUnwatched_run hevents hsame
  rw [bare_eq]
  exact (congrArg (·.state.frame) hbare).symm

end

/-! ## Running -/

theorem run_of_prepare_error {args : Arguments} {reader : Reader} {supply : Supply} {e : Error}
    (h : prepare args reader supply = .error e) :
    run args (some reader) supply = .error (.error e) := by
  simp only [run, h]
  rfl

theorem run_some_ne_noSuchFile (args : Arguments) (reader : Reader) (supply : Supply) :
    run args (some reader) supply ≠ .error .noSuchFile := by
  have hmap : ∀ r : Except Error Outcome, Except.mapError Failure.error r ≠ .error .noSuchFile
    | .error _ => nofun
    | .ok _ => nofun
  exact hmap _

/-- What comes of a run whose program fits into memory. -/
structure Plays (args : Arguments) (reader : Reader) (supply : Supply) (image : List UInt8) :
    Prop where
  /-- It ends with the frame of a machine of its own, and the buzzer was told nothing. -/
  ends : ∃ outcome ops, run args (some reader) supply = .ok outcome ∧
    (∀ op ∈ ops, op = .step ∨ op = .tick) ∧
    outcome.final = (bare args supply image ops).state.frame ∧
    outcome.console.buzzer.calls = []
  /-- So it does when the clocks tick in another order, when others look at the machine meanwhile,
  and when an observer has more room or less and reads its cycles or not. -/
  schedules : ∃ c, prepare args reader supply = .ok c ∧
    ∀ (capacity : Nat) (events : List Event), (∀ e ∈ events, e.isWatch = true) →
      let life := .call (.subscribe capacity) :: .call .start :: events
      let c' := (Event.run c life).2
      (∀ reply ∈ (Event.run c life).1, ∀ error, reply ≠ .failed error) ∧
        c'.stop.1 = .ok () ∧
        c'.stop.2.frame = .ok (bare args supply image (events.filterMap Event.tick?)).state.frame ∧
        c'.stop.2.buzzer.calls = []
  /-- The keys that are held are down throughout, and no others. -/
  keys : ∀ ops, (∀ op ∈ ops, op = .step ∨ op = .tick) → ∀ key,
    (bare args supply image ops).isKeyDown key = true ↔ key ∈ args.hold

section

variable {args : Arguments} {reader : Reader} {image : List UInt8} (supply : Supply)
  (hkeys : AreKeys args.hold) (hz : args.hz ≠ 0) (hr : reader.readAll = .ok image)
  (hi : image.length ≤ 3584)
include hkeys hz hr hi

theorem run_ends :
    ∃ outcome ops, run args (some reader) supply = .ok outcome ∧
      (∀ op ∈ ops, op = .step ∨ op = .tick) ∧
      outcome.final = (bare args supply image ops).state.frame ∧
      outcome.console.buzzer.calls = [] := by
  have hprepare := prepare_of_fits supply hz hr hkeys hi
  obtain ⟨p, hbegin, hp⟩ := begin_eq (sound_ready hz supply image) rfl
  have hplaying := playing_ready hz supply image cycleCapacity
  rw [← hp] at hplaying
  obtain ⟨p', hrun, hwatched⟩ := Progress.runFor_watched hplaying args.millis.toNat
  obtain ⟨outcome, hfinish, hfinal, hbuzzer⟩ := Progress.finish_eq (hwatched.playing hplaying)
  obtain ⟨events, hevents, hconsole⟩ := hwatched
  refine ⟨outcome, events.filterMap Event.tick?, ?_, ?_, ?_, hbuzzer⟩
  · simp only [run, hprepare]
    show Except.mapError _ (begin _ >>= fun p => p.runFor _ >>= fun p => p.finish) = _
    rw [hbegin]
    show Except.mapError _ (p.runFor _ >>= fun p => p.finish) = _
    rw [hrun]
    show Except.mapError _ p'.finish = _
    rw [hfinish]
    rfl
  · intro op hop
    obtain ⟨e, -, htick⟩ := List.mem_filterMap.1 hop
    exact Event.tick?_eq_some htick
  · rw [hfinal, ← hconsole, hp]
    exact frame_run_opened hz supply image cycleCapacity hevents

/-- **A run whose program fits comes to an end**, and neither the schedule nor onlookers matter. -/
theorem plays : Plays args reader supply image where
  ends := run_ends supply hkeys hz hr hi
  schedules := by
    refine ⟨_, prepare_of_fits supply hz hr hkeys hi, ?_⟩
    intro capacity events hevents life c'
    have hplaying := playing_ready hz supply image capacity
    have hlife := run_opening (sound_ready hz supply image) capacity rfl events
    have hc' : c' = (Event.run (opened (ready args supply image) capacity) events).2 :=
      (congrArg Prod.snd hlife :)
    have hnow : c'.Playing := by
      rw [hc']
      exact hplaying.run hevents
    have hframe : c'.machine.state.frame =
        (bare args supply image (events.filterMap Event.tick?)).state.frame := by
      rw [hc']
      exact frame_run_opened hz supply image capacity hevents
    refine ⟨?_, ?_, ?_, ?_⟩
    · intro reply hreply error
      rw [hlife] at hreply
      rcases List.mem_cons.1 hreply with rfl | hreply
      · nofun
      · rcases List.mem_cons.1 hreply with rfl | hreply
        · nofun
        · exact hplaying.replies_ne_failed hevents reply hreply error
    · rw [hnow.stop_eq]
    · have hlock := Console.lock_of_free (c := { c' with clock := none }) hnow.free
      rw [hnow.stop_eq, Console.frame, Console.inspect, hlock, ← hframe]
      rfl
    · rw [hnow.stop_eq]
      exact hnow.untold
  keys _ hops := isKeyDown_bare hkeys supply image hops

end

end Runner

open Runner in
/-- **What comes of a run**, for all arguments whose held keys are keys, as they are in all
arguments that the command line accepts. It fails for want of a program file exactly if there is
none, otherwise because of the clock rate exactly if the instruction clock is to stand still,
whatever the program, and otherwise, where the program can be read, because of its size exactly if
there is no room for it. A run that does not fail ends with the frame of a machine of its own that
wraps sprites as asked, has the program in memory and the held keys down, and takes some steps and
ticks (`Plays`). To print every frame makes no difference. -/
theorem run_outcome (args : CommandLine.Arguments) (supply : Supply) :
    (∀ argv, CommandLine.parse argv = .ok args → CommandLine.AreKeys args.hold) ∧
    (CommandLine.AreKeys args.hold →
      (∀ source, run args source supply = .error .noSuchFile ↔ source = none) ∧
      (∀ source everyFrame, run { args with everyFrame } source supply = run args source supply) ∧
      ∀ reader : Reader,
        (run args (some reader) supply = .error (.error (.clockRate 0)) ↔ args.hz = 0) ∧
        (args.hz ≠ 0 → ∀ reason, reader.readAll = .error reason →
          run args (some reader) supply = .error (.error (.unreadable reason))) ∧
        (args.hz ≠ 0 → ∀ image, reader.readAll = .ok image →
          (run args (some reader) supply = .error (.error (.imageTooLarge image.length 3584)) ↔
            3584 < image.length) ∧
          (image.length ≤ 3584 → Plays args reader supply image))) := by
  refine ⟨fun _ => CommandLine.areKeys_of_parse, fun hkeys => ?_⟩
  have hopen : ∀ source, run args source supply = .error .noSuchFile ↔ source = none := by
    intro source
    cases source with
    | none => exact ⟨fun _ => rfl, fun _ => rfl⟩
    | some reader =>
      refine ⟨fun hrun => absurd hrun ?_, nofun⟩
      exact run_some_ne_noSuchFile args reader supply
  refine ⟨hopen, fun _ _ => rfl, ?_⟩
  intro reader
  refine ⟨⟨?_, ?_⟩, ?_, ?_⟩
  · intro hrun
    by_contra hz
    cases hr : reader.readAll with
    | error reason =>
      rw [run_of_prepare_error (prepare_of_unreadable supply hz hr)] at hrun
      cases hrun
    | ok image =>
      by_cases hi : image.length ≤ 3584
      · obtain ⟨outcome, _, hok, -⟩ := run_ends supply hkeys hz hr hi
        rw [hok] at hrun
        cases hrun
      · have hprepare := prepare_of_tooLarge supply hz hr (Nat.lt_of_not_le hi)
        rw [run_of_prepare_error hprepare] at hrun
        cases hrun
  · exact fun hz => run_of_prepare_error (prepare_of_still supply hz)
  · exact fun hz reason hr => run_of_prepare_error (prepare_of_unreadable supply hz hr)
  · intro hz image hr
    refine ⟨⟨?_, ?_⟩, fun hi => plays supply hkeys hz hr hi⟩
    · intro hrun
      by_contra hi
      obtain ⟨outcome, _, hok, -⟩ := run_ends supply hkeys hz hr (Nat.le_of_not_lt hi)
      rw [hok] at hrun
      cases hrun
    · exact fun hi => run_of_prepare_error (prepare_of_tooLarge supply hz hr hi)

open Runner in
/-- A program of one draw, with a key that is held twice. -/
theorem run_outcome_with_key_held_twice :
    let argv := ["draw.ch8", "--hold", "a", "--hold", "A", "--millis", "1"]
    let args : CommandLine.Arguments :=
      { program := "draw.ch8", hz := 2000, millis := 1, hold := [0xA, 0xA], toroidal := false,
        everyFrame := false }
    let reader : Reader := .ofBytes [0xD0, 0x05]
    let ticks : List Event := [.instructionTick, .call .takeFrame, .timerTick]
    (CommandLine.parse argv = .ok args ∧ CommandLine.AreKeys args.hold ∧ args.hz ≠ 0 ∧
      reader.readAll = .ok [0xD0, 0x05] ∧ [0xD0, 0x05].length ≤ 3584 ∧
      (∀ e ∈ ticks, e.isWatch = true) ∧
      ∀ op ∈ ticks.filterMap Event.tick?, op = .step ∨ op = .tick) ∧
    (∃ outcome, run args (some reader) (.ofSeed 1) = .ok outcome ∧
      outcome.console.buzzer.calls = []) ∧
    (∃ c, prepare args reader (.ofSeed 1) = .ok c ∧
      (Event.run c (.call (.subscribe 1) :: .call .start :: ticks)).2.stop.2.frame =
        .ok (bare args (.ofSeed 1) [0xD0, 0x05] [.step, .tick]).state.frame) ∧
    (bare args (.ofSeed 1) [0xD0, 0x05] [.step, .tick]).isKeyDown 0xA = true := by
  intro argv args reader ticks
  have hparse : CommandLine.parse argv = .ok args := rfl
  have hz : args.hz ≠ 0 := by decide
  have hr : reader.readAll = .ok [0xD0, 0x05] := by
    show Reader.readAll (.ofBytes [0xD0, 0x05]) = _
    simp [Reader.ofBytes, Reader.ofData, Reader.pieces, Reader.readAll, Reader.readFrom]
  have hi : [0xD0, 0x05].length ≤ 3584 := by decide
  have hwatch : ∀ e ∈ ticks, e.isWatch = true := by decide
  have hops : ∀ op ∈ ticks.filterMap Event.tick?, op = .step ∨ op = .tick := by decide
  obtain ⟨haccepted, houtcome⟩ := run_outcome args (.ofSeed 1)
  have hkeys := haccepted argv hparse
  obtain ⟨-, -, hreads⟩ := houtcome hkeys
  obtain ⟨-, -, hread⟩ := hreads reader
  obtain ⟨-, hplays⟩ := hread hz _ hr
  obtain ⟨⟨outcome, -, hrun, -, -, hbuzzer⟩, ⟨c, hprepare, hschedules⟩, hdown⟩ := hplays hi
  obtain ⟨-, -, hframe, -⟩ := hschedules 1 ticks hwatch
  exact ⟨⟨hparse, hkeys, hz, hr, hi, hwatch, hops⟩, ⟨outcome, hrun, hbuzzer⟩, ⟨c, hprepare, hframe⟩,
    (hdown _ hops 0xA).2 (by decide)⟩

end Chip8VM
