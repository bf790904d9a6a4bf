import Chip8VM.Proofs.Console.Schedule
import Chip8VM.Proofs.Machine.Looking

/-!
# Playing without sound

A muted console whose clocks tick, on which nobody dies who holds the machine, goes on playing while
its clocks tick and others look at its machine (`Console.Playing.run`). It is the ticks alone that
tell what the machine computes (`Console.Playing.sameUnwatched_run`), and the clocks can be stopped
without an error (`Console.Playing.stop_eq`). Reading all cycles at once is one way to look
(`Console.Watched.drain`).
-/

set_option autoImplicit false

namespace Chip8VM

namespace Observers

theorem update_eq_self {os : Observers} {id : Nat} {f : Observer → Observer}
    (h : ∀ o ∈ os.present, o.id = id → f o = o) : os.update id f = os := by
  have hmap : os.present.map (fun o => if o.id == id then f o else o) =
      os.present.map fun o => o := by
    refine List.map_congr_left fun o ho => ?_
    split
    · next hid => exact h o ho (beq_iff_eq.1 hid)
    · rfl
  rw [update, hmap, List.map_id']

theorem update_update (os : Observers) (id : Nat) {f g : Observer → Observer}
    (hf : ∀ o, (f o).id = o.id) : (os.update id f).update id g = os.update id (g ∘ f) := by
  simp only [update, List.map_map]
  congr 2
  funext o
  by_cases ho : o.id = id <;> simp [ho, hf]

end Observers

/-! ## Ticks and looks -/

namespace Event

/-- A tick, or a call that at most looks at the machine. -/
def isWatch : Event → Bool
  | .instructionTick | .timerTick => true
  | .call k => k.isPlain && k.operations.all (·.isLook)

/-- What a tick does to the machine. -/
def tick? : Event → Option Operation
  | .instructionTick => some .step
  | .timerTick => some .tick
  | .call _ => none

theorem stops_of_isWatch {e : Event} (h : e.isWatch = true) : e.stops = false := by
  cases e with
  | instructionTick | timerTick => rfl
  | call k =>
    cases k with
    | stop | close => cases h
    | _ => rfl

theorem ne_poison_of_isWatch {e : Event} (h : e.isWatch = true) : e ≠ .call .poison := by
  rintro rfl
  cases h

theorem loud_bare {e : Event} (h : e.isWatch = true) :
    Operation.loud (·.isLook) e.bare = e.tick?.toList := by
  cases e with
  | instructionTick | timerTick => rfl
  | call k =>
    rw [isWatch, Bool.and_eq_true, List.all_eq_true] at h
    refine List.filter_eq_nil_iff.2 fun op hop => ?_
    simp [h.2 op hop]

theorem loud_flatMap_bare {events : List Event} (h : ∀ e ∈ events, e.isWatch = true) :
    Operation.loud (·.isLook) (events.flatMap bare) = events.filterMap tick? := by
  induction events with
  | nil => rfl
  | cons e es ih =>
    rw [List.forall_mem_cons] at h
    have hrest := ih h.2
    have hfirst := loud_bare h.1
    rw [Operation.loud] at hrest hfirst ⊢
    rw [List.flatMap_cons, List.filter_append, hfirst, hrest]
    cases htick : e.tick? <;> simp [htick]

theorem tick?_eq_some {e : Event} {op : Operation} (h : e.tick? = some op) :
    op = .step ∨ op = .tick := by
  cases e with
  | instructionTick => exact .inl (Option.some.inj h).symm
  | timerTick => exact .inr (Option.some.inj h).symm
  | call k => cases h

end Event

namespace Console

/-- The console ticks without sound. -/
structure Playing (c : Console) : Prop extends c.Sound where
  muted : c.config.muted = true
  ticking : c.isTicking = true
  untold : c.buzzer.calls = []

namespace Playing

variable {c : Console} (h : c.Playing)
include h

theorem fails_eq : c.fails = false := by
  rw [fails, h.muted]
  rfl

theorem of_turn {e : Event} {c' : Console} (he : e.isWatch = true) (hturn : Turn c e c') :
    c'.isTicking = true ∧ c'.buzzer.calls = [] := by
  cases hturn with
  | poisoned | started | refused => cases he
  | still hstops | stopped _ hstops =>
    rw [Event.stops_of_isWatch he] at hstops
    cases hstops
  | gaveUp _ _ _ _ hp =>
    rw [h.free] at hp
    cases hp
  | stepped _ ht => exact ⟨by simp [isTicking, ht], h.untold⟩
  | ticked _ ht =>
    constructor
    · rw [isTicking, h.fails_eq]
      split <;> simp [ht]
    · -- The tone that there may be to tell is not told.
      show c.buzzer.calls ++ _ = []
      rw [h.untold, h.muted]
      rfl
  | idle | plain => exact ⟨h.ticking, h.untold⟩

/-- **A console goes on playing** through a tick or a look. -/
theorem apply {e : Event} (he : e.isWatch = true) : (e.apply c).2.Playing := by
  have hturn := Event.turn h.reachable e
  obtain ⟨hticking, huntold⟩ := h.of_turn he hturn
  exact ⟨h.toSound.apply (Event.ne_poison_of_isWatch he), hturn.config ▸ h.muted, hticking, huntold⟩

theorem reply_ne_failed {e : Event} (he : e.isWatch = true) (error : Error) :
    (e.apply c).1 ≠ .failed error := by
  have hlock := lock_of_free h.free
  cases e with
  | instructionTick | timerTick =>
    intro hreply
    cases hreply
  | call k =>
    cases k with
    | boot | bootFrom | start | stop | close | pause | resume | press | release | poison => cases he
    | takeFrame => simp [Event.apply, Call.apply, Call.answer, Console.takeFrame, change, hlock,
        Reply.ofExcept]
    | subscribe => simp [Event.apply, Call.apply, Call.answer, Console.subscribe, change, hlock,
        Reply.ofExcept]
    | isPaused | frame | toneActive | inspect =>
      simp [Event.apply, Call.apply, Call.answer, Console.isPaused, Console.frame,
        Console.toneActive, Console.inspect, hlock, Except.map, Reply.ofExcept]
    | isRunning | receive | unsubscribe =>
      intro hreply
      cases hreply

theorem operations_eq_bare {e : Event} (he : e.isWatch = true) : e.operations c = e.bare := by
  rw [h.operations_eq]
  split
  · rfl
  · next hreach =>
    cases e with
    | instructionTick | timerTick => exact absurd h.ticking hreach
    | call k => exact (not_not.1 (mt k.operations_ne_nil_iff.1 hreach)).symm

/-! ## A life -/

variable {events : List Event} (hevents : ∀ e ∈ events, e.isWatch = true)
include hevents

theorem run : (Event.run c events).2.Playing := by
  induction events generalizing c with
  | nil => exact h
  | cons e es ih =>
    rw [List.forall_mem_cons] at hevents
    exact ih (h.apply hevents.1) hevents.2

theorem replies_ne_failed : ∀ reply ∈ (Event.run c events).1, ∀ error, reply ≠ .failed error := by
  induction events generalizing c with
  | nil => exact fun reply hreply => absurd hreply List.not_mem_nil
  | cons e es ih =>
    rw [List.forall_mem_cons] at hevents
    intro reply hreply
    rcases List.mem_cons.1 hreply with rfl | hreply
    · exact h.reply_ne_failed hevents.1
    · exact ih (h.apply hevents.1) hevents.2 reply hreply

theorem history_eq : Event.history c events = events.flatMap Event.bare := by
  induction events generalizing c with
  | nil => rfl
  | cons e es ih =>
    rw [List.forall_mem_cons] at hevents
    rw [Event.history, List.flatMap_cons, h.operations_eq_bare hevents.1,
      ih (h.apply hevents.1) hevents.2]

/-- **Nobody who looks at the machine makes a difference**: what it computes is told by the ticks.
-/
theorem sameUnwatched_run {m : Machine} (hm : c.machine.SameUnwatched m) :
    (Event.run c events).2.machine.SameUnwatched
      (Operation.run m c.supply (events.filterMap Event.tick?)).machine := by
  have hloud : Operation.loud (·.isLook) (Event.history c events) =
      Operation.loud (·.isLook) (events.filterMap Event.tick?) := by
    rw [h.history_eq hevents, Event.loud_flatMap_bare hevents]
    refine (List.filter_eq_self.2 fun op hop => ?_).symm
    obtain ⟨e, -, htick⟩ := List.mem_filterMap.1 hop
    rcases Event.tick?_eq_some htick with rfl | rfl <;> rfl
  rw [Event.machine_run]
  exact (Operation.silence_look.run hm c.supply (.of_loud hloud) fun _ _ => trivial).2.1

end Playing

/-- The clocks of a console that plays are stopped without a word. -/
theorem Playing.stop_eq {c : Console} (h : c.Playing) :
    c.stop = (.ok (), { c with clock := none }) := by
  obtain ⟨t, hc, ht⟩ := exists_of_isTicking h.ticking
  have hloses : c.loses t = false := by
    rw [loses, if_pos ht, h.fails_eq, Bool.and_false]
  have htell : c.tellAll t.farewell = c := by
    rw [tellAll, h.muted]
    simp
  rw [stop_of_some c hc, hloses, if_pos ht, htell]
  simp

/-! ## Reading everything -/

/-- Ticks and looks lead from the one console to the other. -/
def Watched (c c' : Console) : Prop :=
  ∃ events : List Event, (∀ e ∈ events, e.isWatch = true) ∧ (Event.run c events).2 = c'

namespace Watched

variable {c c' c'' : Console}

theorem refl (c : Console) : c.Watched c := ⟨[], nofun, rfl⟩

theorem trans (h : c.Watched c') (h' : c'.Watched c'') : c.Watched c'' := by
  obtain ⟨events, hevents, rfl⟩ := h
  obtain ⟨events', hevents', rfl⟩ := h'
  refine ⟨events ++ events', ?_, Event.run_append c events events'⟩
  intro e he
  rcases List.mem_append.1 he with he | he
  · exact hevents e he
  · exact hevents' e he

theorem of_event (c : Console) {e : Event} (he : e.isWatch = true) : c.Watched (e.apply c).2 :=
  ⟨[e], by simpa using he, rfl⟩

/-- To read all cycles is to read them one after another. -/
theorem drain {c : Console} (hn : c.machine.observers.Numbered) (id : Nat) :
    c.Watched (c.drain id).2 := by
  generalize hunread : (c.machine.observers.unread id).toList = cycles
  induction cycles generalizing c with
  | nil =>
    have hsame : c.machine.observers.update id (fun o => { o with unread := #[] }) =
        c.machine.observers := by
      refine Observers.update_eq_self fun o ho hid => ?_
      rw [← hid, hn.unread_eq ho, Array.toList_eq_nil_iff] at hunread
      rw [← hunread]
    have hdrain : (c.drain id).2 = c := by
      simp only [Console.drain, Observers.drain, hsame]
    rw [hdrain]
    exact .refl c
  | cons cycle rest ih =>
    have hreceive := of_event c (e := .call (.receive id)) rfl
    have hn' := Operation.numbered_apply hn c.supply (.receive id)
    rcases c.machine.observers.receive_cases id with ⟨hnone, -⟩ | ⟨_, _, -, hr⟩
    · rw [hunread] at hnone
      cases hnone
    · simp only [Event.apply, Call.apply, Console.receive, Machine.receive, Operation.apply,
        hr] at hreceive hn'
      refine hreceive.trans ?_
      have hrest := ih (c := { c with machine := { c.machine with
        observers := c.machine.observers.update id Observer.dropOldest } }) hn' (by
          rw [Observers.unread_dropOldest, if_pos rfl, hunread]
          rfl)
      simp only [Console.drain, Observers.drain,
        Observers.update_update _ _ (f := Observer.dropOldest) fun _ => rfl] at hrest ⊢
      exact hrest

end Watched

end Console

end Chip8VM
