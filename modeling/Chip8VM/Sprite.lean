import Chip8VM.Frame.Wrap

/-!
# Sprites

A sprite is a run of bytes, one for each row of eight pixels, the highest bit being the leftmost
pixel. `Sprite.cells` lists the cells that its set bits fall on.
-/

set_option autoImplicit false

namespace Chip8VM.Sprite

/-- The columns of the set bits of one row, from left to right. -/
def columns (bits : UInt8) : List Nat :=
  (List.range 8).filter fun col => bits.toNat.testBit (7 - col)

/-- The pixels of a sprite, each as its column and row, counted from the sprite's corner. -/
def pixels (rows : List UInt8) : List (Nat × Nat) :=
  rows.zipIdx.flatMap fun (bits, row) => (columns bits).map fun col => (col, row)

/-- The cells of a sprite whose corner is in column `x` of row `y`. -/
def cells (wrap : Wrap) (x y : Nat) (rows : List UInt8) : List Cell :=
  (pixels rows).map fun (col, row) => wrap.cell (x + col) (y + row)

end Chip8VM.Sprite
