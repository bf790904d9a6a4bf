/-!
# Words

A word is 16 bits: an instruction as it stands in memory, an address, or a counter. Two bytes make
one, the more significant byte first. Its nibbles are numbered from the least significant one.
-/

set_option autoImplicit false

namespace Chip8VM

/-- There are nibbles, so that numerals such as `0xA` stand for them. -/
instance neZero_sixteen : @NeZero Nat .ofOfNat0 16 := ⟨Nat.succ_ne_zero 15⟩

/-- A number of 16 bits. -/
abbrev Word := UInt16

namespace Word

/-- The word of two bytes that stand next to each other in memory. -/
def ofBytes (high low : UInt8) : Word := UInt16.ofNat (256 * high.toNat + low.toNat)

/-- The nibble `k` places above the least significant one. -/
def nibble (w : Word) (k : Nat) : Fin 16 :=
  ⟨w.toNat >>> (4 * k) % 16, Nat.mod_lt _ (by decide)⟩

/-- The four nibbles, most significant first. -/
def nibbles (w : Word) : List (Fin 16) := [w.nibble 3, w.nibble 2, w.nibble 1, w.nibble 0]

/-- The nibble that names the first register of an instruction, `_X__`. -/
def x (w : Word) : Fin 16 := w.nibble 2

/-- The nibble that names the second register of an instruction, `__Y_`. -/
def y (w : Word) : Fin 16 := w.nibble 1

/-- The lowest nibble, `___N`. -/
def n (w : Word) : Fin 16 := w.nibble 0

/-- The less significant byte, `__NN`. -/
def low (w : Word) : UInt8 := UInt8.ofNat w.toNat

/-- The address in the lower twelve bits, `_NNN`. -/
def address (w : Word) : Fin 4096 := ⟨w.toNat % 4096, Nat.mod_lt _ (by decide)⟩

/-- The word of four nibbles, most significant first. -/
def ofNibbles (a b c d : Fin 16) : Word :=
  UInt16.ofNat (4096 * a.val + 256 * b.val + 16 * c.val + d.val)

/-- The word of a nibble above an address. -/
def ofAddress (a : Fin 16) (target : Fin 4096) : Word :=
  UInt16.ofNat (4096 * a.val + target.val)

/-- The word of two nibbles above a byte. -/
def ofByte (a x : Fin 16) (byte : UInt8) : Word :=
  UInt16.ofNat (4096 * a.val + 256 * x.val + byte.toNat)

theorem toNat_ofBytes (high low : UInt8) :
    (ofBytes high low).toNat = 256 * high.toNat + low.toNat := by
  have := high.toNat_lt
  have := low.toNat_lt
  simp only [ofBytes, UInt16.toNat_ofNat']
  omega

theorem toNat_ofNibbles (a b c d : Fin 16) :
    (ofNibbles a b c d).toNat = 4096 * a.val + 256 * b.val + 16 * c.val + d.val := by
  simp only [ofNibbles, UInt16.toNat_ofNat']
  omega

theorem toNat_ofAddress (a : Fin 16) (target : Fin 4096) :
    (ofAddress a target).toNat = 4096 * a.val + target.val := by
  simp only [ofAddress, UInt16.toNat_ofNat']
  omega

theorem toNat_ofByte (a x : Fin 16) (byte : UInt8) :
    (ofByte a x byte).toNat = 4096 * a.val + 256 * x.val + byte.toNat := by
  have := byte.toNat_lt
  simp only [ofByte, UInt16.toNat_ofNat']
  omega

/-! ## Reading a word back -/

theorem val_nibble (w : Word) (k : Nat) : (w.nibble k).val = w.toNat >>> (4 * k) % 16 := rfl

theorem nibble_three_ofNibbles (a b c d : Fin 16) : (ofNibbles a b c d).nibble 3 = a := by
  apply Fin.ext; simp only [val_nibble, toNat_ofNibbles]; omega

theorem nibble_three_ofAddress (a : Fin 16) (t : Fin 4096) : (ofAddress a t).nibble 3 = a := by
  apply Fin.ext; simp only [val_nibble, toNat_ofAddress]; omega

theorem nibble_three_ofByte (a x : Fin 16) (b : UInt8) : (ofByte a x b).nibble 3 = a := by
  have := b.toNat_lt
  apply Fin.ext; simp only [val_nibble, toNat_ofByte]; omega

theorem x_ofNibbles (a b c d : Fin 16) : (ofNibbles a b c d).x = b := by
  apply Fin.ext; simp only [x, val_nibble, toNat_ofNibbles]; omega

theorem y_ofNibbles (a b c d : Fin 16) : (ofNibbles a b c d).y = c := by
  apply Fin.ext; simp only [y, val_nibble, toNat_ofNibbles]; omega

theorem n_ofNibbles (a b c d : Fin 16) : (ofNibbles a b c d).n = d := by
  apply Fin.ext; simp only [n, val_nibble, toNat_ofNibbles]; omega

theorem address_ofAddress (a : Fin 16) (t : Fin 4096) : (ofAddress a t).address = t := by
  apply Fin.ext; simp only [address, toNat_ofAddress]; omega

theorem x_ofByte (a x : Fin 16) (b : UInt8) : (ofByte a x b).x = x := by
  have := b.toNat_lt
  apply Fin.ext; simp only [Word.x, val_nibble, toNat_ofByte]; omega

theorem low_ofByte (a x : Fin 16) (b : UInt8) : (ofByte a x b).low = b := by
  have := b.toNat_lt
  apply UInt8.toNat_inj.mp
  simp only [low, UInt8.toNat_ofNat', toNat_ofByte]; omega

/-! ## Writing a word back -/

theorem ofAddress_eq {w : Word} {a : Fin 16} (h : (w.nibble 3).val = a.val) :
    ofAddress a w.address = w := by
  have := w.toNat_lt
  rw [val_nibble] at h
  apply UInt16.toNat_inj.mp
  simp only [toNat_ofAddress, address]; omega

theorem ofByte_eq {w : Word} {a : Fin 16} {b : UInt8} (h : (w.nibble 3).val = a.val)
    (hb : w.low.toNat = b.toNat) : ofByte a w.x b = w := by
  have := w.toNat_lt
  rw [val_nibble] at h
  simp only [low, UInt8.toNat_ofNat'] at hb
  apply UInt16.toNat_inj.mp
  simp only [toNat_ofByte, x, val_nibble]; omega

theorem ofNibbles_eq {w : Word} {a d : Fin 16} (h : (w.nibble 3).val = a.val)
    (hd : w.n.val = d.val) : ofNibbles a w.x w.y d = w := by
  have := w.toNat_lt
  rw [val_nibble] at h
  simp only [n, val_nibble] at hd
  apply UInt16.toNat_inj.mp
  simp only [toNat_ofNibbles, x, y, val_nibble]; omega

end Word

end Chip8VM
