/-!
# The keypad

Sixteen keys, each up or down. A number of 16 or more names no key, and no such key is ever down.
-/

set_option autoImplicit false

namespace Chip8VM

/-- For each key, whether it is down. -/
structure Keypad where
  down : Vector Bool 16
deriving DecidableEq

namespace Keypad

/-- The keypad with every key up. -/
def idle : Keypad := ⟨Vector.replicate 16 false⟩

/-- Whether the key with this number is down. -/
def isDown (p : Keypad) (key : Nat) : Bool :=
  if h : key < 16 then p.down[key] else false

/-- The keypad with one key put down or up. -/
def set (p : Keypad) (key : Fin 16) (down : Bool) : Keypad := ⟨p.down.set key down⟩

/-- The greatest key that is down. -/
def greatest? (p : Keypad) : Option (Fin 16) :=
  (List.finRange 16).reverse.find? fun k => p.down[k]

/-- The keys as bits of a number, key `k` as bit `k`. -/
def mask (p : Keypad) : Nat :=
  (List.finRange 16).foldr (fun k n => if p.down[k] then n ||| 1 <<< k.val else n) 0

/-- The keypad with the keys down that are bits of a number. -/
def ofMask (n : Nat) : Keypad := ⟨Vector.ofFn fun k => n.testBit k.val⟩

/-! ## Keys that are down -/

theorem isDown_idle (key : Nat) : idle.isDown key = false := by
  simp [isDown, idle]

theorem isDown_of_ge (p : Keypad) {key : Nat} (h : 16 ≤ key) : p.isDown key = false := by
  simp [isDown]; omega

theorem isDown_set (p : Keypad) (k : Fin 16) (down : Bool) (key : Nat) :
    (p.set k down).isDown key = if key = k.val then down else p.isDown key := by
  simp only [isDown, set, Vector.getElem_set]
  grind

/-- No key is reported exactly when no key is down. -/
theorem greatest?_eq_none_iff (p : Keypad) :
    p.greatest? = none ↔ ∀ key, p.isDown key = false := by
  simp only [greatest?, List.find?_eq_none, List.mem_reverse, List.mem_finRange, true_implies,
    isDown]
  constructor
  · intro h key
    split
    · rename_i hk
      simpa using h ⟨key, hk⟩
    · rfl
  · intro h k
    have := h k.val
    simpa using this

end Keypad

end Chip8VM
