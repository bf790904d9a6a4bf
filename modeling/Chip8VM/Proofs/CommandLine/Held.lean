import Chip8VM.CommandLine.Scan

/-!
# The keys that are held down

Every key that the runner is to hold down was read by `parseKey?`, and so is one of the sixteen: a
value comes into a draft in `Draft.fill` alone, and each thing that a word of the command line does
to a scan keeps what `fill` guarantees (`Scan.holdsKeys_words`).
-/

set_option autoImplicit false

namespace Chip8VM.CommandLine

theorem exists_of_bind_eq_ok {ε α β : Type} {x : Except ε α} {f : α → Except ε β} {b : β}
    (h : (x >>= f) = .ok b) : ∃ a, x = .ok a ∧ f a = .ok b := by
  cases x with
  | error e => cases h
  | ok a => exact ⟨a, rfl, h⟩

theorem parseKey?_lt {text : String} {key : UInt8} (h : parseKey? text = some key) :
    key.toNat < 16 := by
  obtain ⟨n, -, hn⟩ := Option.bind_eq_some_iff.1 h
  split at hn
  · next hlt =>
    cases hn
    rw [UInt8.toNat_ofNat']
    omega
  · cases hn

/-- Every key in the list is one of the sixteen. -/
def AreKeys (keys : List UInt8) : Prop := ∀ key ∈ keys, key.toNat < 16

namespace Draft

variable {d d' : Draft} (hd : AreKeys d.hold)
include hd

theorem holdsKeys_fill {slot : Slot} {text : String} (h : d.fill slot text = .ok d') :
    AreKeys d'.hold := by
  cases slot with
  | hold =>
    simp only [fill] at h
    split at h
    · next key hkey =>
      cases h
      intro k hk
      rcases List.mem_append.1 hk with hk | hk
      · exact hd k hk
      · rw [List.mem_singleton.1 hk]
        exact parseKey?_lt hkey
    · cases h
  | _ =>
    simp only [fill] at h
    split at h <;> cases h
    exact hd

theorem holdsKeys_take {slot : Slot} {value : Option String} (h : d.take slot value = .ok d') :
    AreKeys d'.hold := by
  unfold take at h
  split at h
  · cases h
  · split at h
    · cases h
    · exact holdsKeys_fill hd h

theorem holdsKeys_raise {f : Flag} (h : d.raise f = .ok d') : AreKeys d'.hold := by
  unfold raise at h
  split at h
  · cases h
  · cases h
  all_goals
    split at h
    · cases h
    · cases h
      exact hd

theorem holdsKeys_finish {args : Arguments} (h : d.finish = .ok args) : AreKeys args.hold := by
  unfold finish at h
  split at h
  · cases h
  · cases h
    exact hd

end Draft

namespace Scan

section

variable {s s' : Scan} (hs : AreKeys s.draft.hold)
include hs

theorem holdsKeys_settle {d : Draft} (h : s.settle = .ok d) : AreKeys d.hold := by
  unfold settle at h
  split at h
  · cases h
    exact hs
  · exact Draft.holdsKeys_take hs h

theorem holdsKeys_begin {slot : Slot} {value : Option String} (h : s.begin slot value = .ok s') :
    AreKeys s'.draft.hold := by
  obtain ⟨d, hd, hs'⟩ := exists_of_bind_eq_ok h
  cases hs'
  exact holdsKeys_settle hs hd

theorem holdsKeys_flag {f : Flag} (h : s.flag f = .ok s') : AreKeys s'.draft.hold := by
  obtain ⟨d, hd, hflag⟩ := exists_of_bind_eq_ok h
  obtain ⟨d', hd', hs'⟩ := exists_of_bind_eq_ok hflag
  cases hs'
  exact Draft.holdsKeys_raise (holdsKeys_settle hs hd) hd'

theorem holdsKeys_positional {text : String} (h : s.positional text = .ok s') :
    AreKeys s'.draft.hold := by
  unfold positional at h
  split at h
  · cases h
  · exact holdsKeys_begin hs h

theorem holdsKeys_plain {text : String} (h : s.plain text = .ok s') : AreKeys s'.draft.hold := by
  unfold plain at h
  split at h
  · cases h
    exact hs
  · exact holdsKeys_positional hs h

theorem holdsKeys_long {name : String} {value : Option String} (h : s.long name value = .ok s') :
    AreKeys s'.draft.hold := by
  unfold long at h
  split at h
  · cases h
  · cases h
  · exact holdsKeys_flag hs h
  · exact holdsKeys_begin hs h
  · obtain ⟨d, hd, hlong⟩ := exists_of_bind_eq_ok h
    obtain ⟨d', hd', hs'⟩ := exists_of_bind_eq_ok hlong
    cases hs'
    exact Draft.holdsKeys_take (holdsKeys_settle hs hd) hd'

end

/-! ## The words of a command line -/

theorem holdsKeys_letters {s s' : Scan} (hs : AreKeys s.draft.hold) {cs : List Char}
    (h : s.letters cs = .ok s') : AreKeys s'.draft.hold := by
  induction cs generalizing s with
  | nil =>
    cases h
    exact hs
  | cons c cs ih =>
    unfold letters at h
    split at h
    · cases h
    · obtain ⟨s₁, hflag, hrest⟩ := exists_of_bind_eq_ok h
      exact ih (holdsKeys_flag hs hflag) hrest

theorem holdsKeys_positionals {s s' : Scan} (hs : AreKeys s.draft.hold) {texts : List String}
    (h : s.positionals texts = .ok s') : AreKeys s'.draft.hold := by
  induction texts generalizing s with
  | nil =>
    cases h
    exact hs
  | cons text texts ih =>
    obtain ⟨s₁, hfirst, hrest⟩ := exists_of_bind_eq_ok h
    exact ih (holdsKeys_positional hs hfirst) hrest

theorem holdsKeys_words {s s' : Scan} (hs : AreKeys s.draft.hold) {texts : List String}
    (h : s.words texts = .ok s') : AreKeys s'.draft.hold := by
  induction texts generalizing s with
  | nil =>
    cases h
    exact hs
  | cons text texts ih =>
    unfold words at h
    split at h
    · exact holdsKeys_positionals hs h
    · obtain ⟨s₁, hlong, hrest⟩ := exists_of_bind_eq_ok h
      exact ih (holdsKeys_long hs hlong) hrest
    · obtain ⟨s₁, hletters, hrest⟩ := exists_of_bind_eq_ok h
      exact ih (holdsKeys_letters hs hletters) hrest
    · obtain ⟨s₁, hplain, hrest⟩ := exists_of_bind_eq_ok h
      exact ih (holdsKeys_plain hs hplain) hrest

end Scan

/-- **The keys that a command line holds down** are among the sixteen. -/
theorem areKeys_of_parse {argv : List String} {args : Arguments} (h : parse argv = .ok args) :
    AreKeys args.hold := by
  obtain ⟨s, hwords, hs⟩ := exists_of_bind_eq_ok h
  obtain ⟨d, hsettle, hfinish⟩ := exists_of_bind_eq_ok hs
  have hfresh : AreKeys Scan.fresh.draft.hold := fun key hkey => absurd hkey List.not_mem_nil
  have hscan := Scan.holdsKeys_words hfresh hwords
  exact Draft.holdsKeys_finish (Scan.holdsKeys_settle hscan hsettle) hfinish

end Chip8VM.CommandLine
