/-!
# The screen

A frame is 64 by 32 pixels, each lit or unlit, kept as one row-major run of 2048 cells: cell
`x + 64 * y` is the pixel in column `x` of row `y`. Sprites reach it only through `toggle`.
-/

set_option autoImplicit false

namespace Chip8VM

/-- One of the 2048 cells of a frame. -/
abbrev Cell := Fin 2048

/-- What the screen shows: for each cell, whether it is lit. -/
structure Frame where
  cells : Vector Bool 2048
deriving DecidableEq

namespace Frame

/-- The frame with no pixel lit. -/
def blank : Frame := ⟨Vector.replicate 2048 false⟩

/-- Whether a cell is lit. -/
def isLit (f : Frame) (c : Cell) : Bool := f.cells[c]

/-- The frame with one cell changed over. -/
def flip (f : Frame) (c : Cell) : Frame := ⟨f.cells.set c (!f.cells[c])⟩

/-- Changes a cell over, and says whether that turned a lit pixel off. -/
def toggle (f : Frame) (c : Cell) : Bool × Frame := (f.isLit c, f.flip c)

/-- Changes cells over one after another, and says whether any lit pixel was turned off. -/
def toggleAll (f : Frame) (cells : List Cell) : Bool × Frame :=
  cells.foldl (fun (hit, f) c => let (off, f) := f.toggle c; (hit || off, f)) (false, f)

/-- The pixel in column `x` of row `y`; whatever is off the screen is unlit. -/
def pixel (f : Frame) (x y : Nat) : Bool :=
  if h : x < 64 ∧ y < 32 then f.cells[x + 64 * y] else false

/-- The rows from top to bottom. -/
def rows (f : Frame) : Vector (Vector Bool 64) 32 :=
  Vector.ofFn fun y => Vector.ofFn fun x => f.cells[x.val + 64 * y.val]

/-- The number of lit pixels. -/
def lit (f : Frame) : Nat := f.cells.toList.count true

/-- Whether no pixel is lit. -/
def isClear (f : Frame) : Bool := f.cells.toList.all (!·)

theorem isLit_blank (c : Cell) : blank.isLit c = false := by
  simp [blank, isLit]

theorem isLit_flip (f : Frame) (c d : Cell) :
    (f.flip c).isLit d = if c = d then !f.isLit d else f.isLit d := by
  simp only [isLit, flip, Fin.getElem_fin, Vector.getElem_set, Fin.val_inj]
  split
  · next h => rw [h]
  · rfl

/-- A frame is what its cells are. -/
theorem ext_isLit {f g : Frame} (h : ∀ c, f.isLit c = g.isLit c) : f = g := by
  cases f; cases g
  simp only [mk.injEq]
  exact Vector.ext fun i hi => h ⟨i, hi⟩

/-- The rows, put one behind another, are the cells. -/
theorem flatten_rows (f : Frame) : f.rows.flatten = f.cells := by
  apply Vector.ext
  intro i hi
  rw [Vector.getElem_flatten]
  simp only [rows, Vector.getElem_ofFn, Nat.mod_add_div]

end Frame

end Chip8VM
