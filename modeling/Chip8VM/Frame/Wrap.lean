import Chip8VM.Frame.Basic

/-!
# Sprites at the edge of the screen

A pixel of a sprite may lie past the right edge or below the last row. `Wrap.index` places it on
the screen all the same, in one of two ways, and always on a cell (`Wrap.index_lt`).
-/

set_option autoImplicit false

namespace Chip8VM

/-- How pixels of a sprite that fall off the edge of the screen are placed. -/
inductive Wrap where
  /-- The cells form one run of 2048: past the right edge a sprite goes on in the next row, past
  the last row it goes on at the top. -/
  | flat
  /-- Columns wrap modulo 64 and rows modulo 32, each on its own. -/
  | toroidal
deriving DecidableEq, Repr

namespace Wrap

/-- The number of the cell for column `x` of row `y`. -/
def index : Wrap → Nat → Nat → Nat
  | .flat, x, y => (x + y * 64) % 2048
  | .toroidal, x, y => x % 64 + y % 32 * 64

theorem index_lt (wrap : Wrap) (x y : Nat) : wrap.index x y < 2048 := by
  cases wrap <;> simp only [index] <;> omega

/-- The cell for column `x` of row `y`. -/
def cell (wrap : Wrap) (x y : Nat) : Cell := ⟨wrap.index x y, wrap.index_lt x y⟩

end Wrap

end Chip8VM
