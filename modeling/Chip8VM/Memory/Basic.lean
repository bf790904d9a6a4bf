import Chip8VM.Error
import Chip8VM.Memory.Font

/-!
# Memory

4096 bytes, the font at the very start and programs from `0x200` on. Bytes are read and written as
whole ranges, and a range that does not fit into memory is refused as a whole (`read_eq_error_iff`,
`write_eq_error_iff`). What a write leaves behind is said byte by byte in `getElem_store`.
-/

set_option autoImplicit false

namespace Chip8VM

/-- The bytes that programs and sprites are kept in. -/
structure Memory where
  bytes : Vector UInt8 4096
deriving DecidableEq

namespace Memory

/-- The last address. -/
def last : Nat := 0xFFF

/-- Address of the first instruction of a program. -/
def programStart : Nat := 0x200

/-- Bytes there are for a program. -/
def maxProgram : Nat := 3584

/-- Puts bytes from an address on; whatever lies past the end of memory is dropped. -/
def store (m : Memory) (address : Nat) : List UInt8 → Memory
  | [] => m
  | b :: rest => store ⟨m.bytes.setIfInBounds address b⟩ (address + 1) rest

/-- Memory that is zero throughout. -/
def zero : Memory := ⟨Vector.replicate 4096 0⟩

/-- Memory at power-on: the font, and zeros behind it. -/
def powerOn : Memory := zero.store 0 font

/-- The `len` bytes from an address on. -/
def read (m : Memory) (address len : Nat) : Except Fault (Vector UInt8 len) :=
  if h : address + len > 4096 then .error (.outOfRange (max address 4096))
  else .ok (Vector.ofFn fun k => m.bytes[address + k.val])

/-- Puts bytes from an address on, if all of them fit. -/
def write (m : Memory) (address : Nat) (bytes : List UInt8) : Except Fault Memory :=
  if address + bytes.length > 4096 then .error (.outOfRange (max address 4096))
  else .ok (m.store address bytes)

/-- The addresses at which two memories differ, with the byte of the second one, rising. -/
def changes (before after : Memory) : List (Nat × UInt8) :=
  (List.finRange 4096).filterMap fun a =>
    if before.bytes[a] = after.bytes[a] then none else some (a.val, after.bytes[a])

theorem getElem_store (m : Memory) (address : Nat) (bytes : List UInt8) (a : Nat) (h : a < 4096) :
    (m.store address bytes).bytes[a] =
      if hb : address ≤ a ∧ a < address + bytes.length then bytes[a - address]
      else m.bytes[a] := by
  induction bytes generalizing m address with
  | nil => rw [store, dif_neg (by rw [List.length_nil]; omega)]
  | cons b rest ih =>
    simp only [store, ih, Vector.getElem_setIfInBounds, List.length_cons]
    by_cases ha : address = a
    · subst ha
      rw [dif_neg (by omega), if_pos rfl, dif_pos (by omega)]
      simp only [Nat.sub_self, List.getElem_cons_zero]
    · grind

theorem read_eq_error_iff (m : Memory) (address len : Nat) (f : Fault) :
    m.read address len = .error f ↔ address + len > 4096 ∧ f = .outOfRange (max address 4096) := by
  unfold read; grind

theorem write_eq_error_iff (m : Memory) (address : Nat) (bytes : List UInt8) (f : Fault) :
    m.write address bytes = .error f ↔
      address + bytes.length > 4096 ∧ f = .outOfRange (max address 4096) := by
  unfold write; grind

end Memory

end Chip8VM
