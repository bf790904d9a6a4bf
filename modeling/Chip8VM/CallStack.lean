import Chip8VM.Error

/-!
# The call stack

Sixteen slots for return addresses and the number of them that are in use. `entries` is the list of
live addresses, oldest first; a slot at or above the depth holds what was last put there and is not
part of it. A push adds at the end of the list (`entries_push`), and a pop takes from there
(`entries_pop`).
-/

set_option autoImplicit false

namespace Chip8VM

/-- Slots for the addresses of calls, of which the first `depth` are live. -/
structure CallStack where
  slots : Vector Word 16
  depth : Nat
deriving DecidableEq

namespace CallStack

/-- The stack with no live address. -/
def empty : CallStack := ⟨Vector.replicate 16 0, 0⟩

/-- The live addresses, oldest first. -/
def entries (s : CallStack) : List Word := s.slots.toList.take s.depth

/-- Puts an address on top. There must be a slot for it. -/
def push (s : CallStack) (address : Word) : Except Trap CallStack :=
  if h : s.depth < 16 then .ok ⟨s.slots.set s.depth address, s.depth + 1⟩
  else .error (.noSlot s.depth)

/-- Takes the address on top away. There must be one, in a slot. -/
def pop (s : CallStack) : Except Trap (Word × CallStack) :=
  match s.depth with
  | 0 => .error .noEntry
  | d + 1 => if h : d < 16 then .ok (s.slots[d], ⟨s.slots, d⟩) else .error (.noSlot d)

/-- The stack with the given live addresses, oldest first; those past the last slot are dropped. -/
def ofList (addresses : List Word) : CallStack :=
  ⟨Vector.ofFn fun k => (addresses[k.val]?).getD 0, addresses.length⟩

/-! ## The live addresses -/

theorem entries_empty : empty.entries = [] := rfl

/-- A push adds its address behind the live ones. -/
theorem entries_push {s t : CallStack} {address : Word} (h : s.push address = .ok t) :
    t.entries = s.entries ++ [address] := by
  unfold push at h
  split at h
  · rename_i hd
    cases h
    apply List.ext_getElem
    · simp [entries]
      omega
    · intro i h1 h2
      simp only [entries, List.length_take, Vector.length_toList] at h1
      simp only [entries, List.getElem_take, Vector.getElem_toList, Vector.getElem_set,
        List.getElem_append, List.length_take, Vector.length_toList, List.getElem_singleton]
      split <;> split <;> first | rfl | omega
  · cases h

/-- A pop takes the last of the live addresses away. -/
theorem entries_pop {s t : CallStack} {address : Word} (h : s.pop = .ok (address, t)) :
    s.entries = t.entries ++ [address] := by
  unfold pop at h
  split at h
  · cases h
  · rename_i d hd
    split at h
    · cases h
      simp only [entries, hd]
      rw [← List.take_concat_get (by simpa)]
      simp
    · cases h

end CallStack

end Chip8VM
