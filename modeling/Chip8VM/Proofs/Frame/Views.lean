import Mathlib.Data.Finset.Prod
import Mathlib.Data.List.Defs
import Chip8VM.Proofs.Frame.Text
import Chip8VM.Proofs.Machine.Picture

/-!
# The views of a frame

The cells, the rows, the pixels, the number of lit ones and the text of a frame are found from the
same run of cells in ways of their own. They agree: the rows are the cells cut every 64
(`Frame.rowLists_eq_toChunks`), row `y` holds the pixels of row `y` (`Frame.rowLists_eq_map`), a
column or row off the screen is no other pixel in disguise (`Frame.pixel_of_off`), and the counts
and the text are those of the pixels (`Frame.lit_eq_card`, `Frame.toList_text`).
-/

set_option autoImplicit false

namespace Chip8VM

/-! ## Cutting a list -/

section

variable {α : Type} {n : Nat}

/-- As long as there is room in the first piece, everything goes there. -/
theorem toChunks_go_append {first : Array α} {row : List α} (h : first.size + row.length ≤ n)
    (rest : List α) (done : Array (List α)) :
    List.toChunks.go n (row ++ rest) first done =
      List.toChunks.go n rest (first ++ row.toArray) done := by
  induction row generalizing first with
  | nil => simp
  | cons x row ih =>
    rw [List.length_cons] at h
    have hroom : (first.size == n) = false := by
      rw [beq_eq_false_iff_ne]
      omega
    have hpush : (first.push x).size + row.length ≤ n := by
      rw [Array.size_push]
      omega
    rw [List.cons_append, List.toChunks.go, hroom, if_neg Bool.false_ne_true, ih hpush]
    simp

/-- A piece that begins with `x` is full once the rest of its row is in it. -/
theorem toChunks_go_row {x : α} {row : List α} (h : (x :: row).length = n) (rest : List α)
    (done : Array (List α)) :
    List.toChunks.go n (row ++ rest) #[x] done =
      List.toChunks.go n rest (x :: row).toArray done := by
  have hroom : #[x].size + row.length ≤ n := by
    rw [← h, List.length_cons, List.size_toArray, List.length_singleton, Nat.add_comm]
  rw [toChunks_go_append hroom]
  simp

theorem toChunks_go_flatten {rows : List (List α)} (hn : 0 < n) (h : ∀ row ∈ rows, row.length = n)
    {first : Array α} (hfirst : first.size = n) (done : Array (List α)) :
    List.toChunks.go n rows.flatten first done = done.toList ++ first.toList :: rows := by
  induction rows generalizing first done with
  | nil => simp [List.toChunks.go]
  | cons row rows ih =>
    obtain ⟨hrow, hrows⟩ := List.forall_mem_cons.1 h
    cases row with
    | nil => exact absurd hrow (Nat.ne_of_lt hn)
    | cons x row =>
      -- The first piece is full, so the next one begins with `x`.
      have hfull : (first.size == n) = true := beq_iff_eq.2 hfirst
      calc List.toChunks.go n ((x :: row) :: rows).flatten first done
          = List.toChunks.go n (row ++ rows.flatten) #[x] (done.push first.toList) := by
            rw [List.flatten_cons, List.cons_append, List.toChunks.go, hfull, if_pos rfl]
            rfl
        _ = List.toChunks.go n rows.flatten (x :: row).toArray (done.push first.toList) :=
            toChunks_go_row hrow _ _
        _ = done.toList ++ first.toList :: (x :: row) :: rows := by
            rw [ih hrows hrow]
            simp

/-- Rows of one width, put one behind another and cut at this width, are the rows again. -/
theorem toChunks_flatten {rows : List (List α)} (hn : 0 < n) (h : ∀ row ∈ rows, row.length = n) :
    rows.flatten.toChunks n = rows := by
  cases rows with
  | nil => simp [List.toChunks]
  | cons row rows =>
    obtain ⟨hrow, hrows⟩ := List.forall_mem_cons.1 h
    cases row with
    | nil => exact absurd hrow (Nat.ne_of_lt hn)
    | cons x row =>
      have hcut : ((x :: row) :: rows).flatten.toChunks n =
          List.toChunks.go n (row ++ rows.flatten) #[x] #[] := by
        rw [List.flatten_cons, List.cons_append, List.toChunks]
        omega
      rw [hcut, toChunks_go_row hrow, toChunks_go_flatten hn hrows hrow]
      rfl

end

namespace Frame

/-! ## Pixels and cells -/

theorem pixel_of_on (f : Frame) {x y : Nat} (hx : x < 64) (hy : y < 32) :
    f.pixel x y = f.isLit ⟨x + 64 * y, by omega⟩ := by
  rw [pixel, dif_pos ⟨hx, hy⟩]
  rfl

/-- Nothing off the screen is lit, not even where its number is that of a cell. -/
theorem pixel_of_off (f : Frame) {x y : Nat} (h : ¬ (x < 64 ∧ y < 32)) : f.pixel x y = false := by
  rw [pixel, dif_neg h]

theorem pixel_cell (f : Frame) (c : Cell) : f.pixel (c.val % 64) (c.val / 64) = f.isLit c := by
  rw [pixel_of_on f (Nat.mod_lt _ (by decide)) (by omega)]
  exact congrArg f.isLit (Fin.ext (Nat.mod_add_div c.val 64))

theorem getElem?_cells (f : Frame) {x y : Nat} (hx : x < 64) (hy : y < 32) :
    f.cells.toList[x + 64 * y]? = some (f.pixel x y) := by
  have hc : x + 64 * y < 2048 := by omega
  rw [pixel_of_on f hx hy, List.getElem?_eq_getElem (by rw [Vector.length_toList]; exact hc),
    Vector.getElem_toList]
  rfl

/-! ## Rows -/

/-- The rows as lists. -/
def rowLists (f : Frame) : List (List Bool) := f.rows.toList.map Vector.toList

/-- **Row `y` holds the pixels of row `y`**, from the left to the right. -/
theorem rowLists_eq_map (f : Frame) :
    f.rowLists = (List.range 32).map fun y => (List.range 64).map fun x => f.pixel x y := by
  apply List.ext_getElem
  · simp [rowLists]
  · intro y hy _
    have hy : y < 32 := by simpa [rowLists] using hy
    apply List.ext_getElem
    · simp [rowLists]
    · intro x hx _
      have hx : x < 64 := by simpa [rowLists] using hx
      simp [rowLists, rows, pixel_of_on f hx hy, isLit]

theorem length_rowLists (f : Frame) : f.rowLists.length = 32 := by
  rw [rowLists, List.length_map, Vector.length_toList]

theorem length_of_mem_rowLists {f : Frame} {row : List Bool} (h : row ∈ f.rowLists) :
    row.length = 64 := by
  obtain ⟨row, -, rfl⟩ := List.mem_map.1 h
  exact Vector.length_toList

/-- **The rows are the cells**, cut every 64. -/
theorem rowLists_eq_toChunks (f : Frame) : f.rowLists = f.cells.toList.toChunks 64 := by
  have hflat : f.rowLists.flatten = f.cells.toList := by
    rw [rowLists, ← List.flatMap_def, flatMap_toList, flatten_rows]
  rw [← hflat, toChunks_flatten (by decide) fun row => length_of_mem_rowLists]

theorem getElem?_rowLists (f : Frame) {x y : Nat} (hx : x < 64) (hy : y < 32) :
    (f.rowLists[y]?.bind fun row => row[x]?) = some (f.pixel x y) := by
  rw [rowLists_eq_map]
  simp [hx, hy]

/-! ## Counts -/

/-- The place of a cell on the screen, as its column and its row. -/
def place (c : Cell) : Nat × Nat := (c.val % 64, c.val / 64)

theorem place_injective : Function.Injective place := by
  intro c d h
  obtain ⟨hx, hy⟩ := Prod.mk.inj h
  exact Fin.ext (by omega)

/-- **The number of lit pixels** is that of the places on the screen whose pixel is lit. -/
theorem lit_eq_card (f : Frame) :
    f.lit = ((Finset.range 64 ×ˢ Finset.range 32).filter fun p =>
      f.pixel p.1 p.2 = true).card := by
  have hplaces : ((Finset.range 64 ×ˢ Finset.range 32).filter fun p =>
      f.pixel p.1 p.2 = true) = f.litCells.image place := by
    ext ⟨x, y⟩
    simp only [Finset.mem_filter, Finset.mem_product, Finset.mem_range, Finset.mem_image,
      mem_litCells]
    constructor
    · rintro ⟨⟨hx, hy⟩, hlit⟩
      rw [pixel_of_on f hx hy] at hlit
      have hcolumn : (x + 64 * y) % 64 = x := by omega
      have hrow : (x + 64 * y) / 64 = y := by omega
      exact ⟨_, hlit, Prod.ext hcolumn hrow⟩
    · rintro ⟨c, hlit, hc⟩
      obtain ⟨rfl, rfl⟩ := Prod.mk.inj hc
      refine ⟨⟨Nat.mod_lt _ (by decide), by omega⟩, ?_⟩
      rw [pixel_cell]
      exact hlit
  rw [hplaces, Finset.card_image_of_injective _ place_injective, card_litCells]

theorem eq_blank_iff {f : Frame} : f = .blank ↔ ∀ c, f.isLit c = false := by
  constructor
  · rintro rfl
    exact isLit_blank
  · intro h
    refine ext_isLit fun c => ?_
    rw [h, isLit_blank]

theorem lit_eq_zero_iff {f : Frame} : f.lit = 0 ↔ f = .blank := by
  rw [← card_litCells, Finset.card_eq_zero, Finset.eq_empty_iff_forall_notMem, eq_blank_iff]
  refine forall_congr' fun c => ?_
  rw [mem_litCells, Bool.not_eq_true]

theorem isClear_iff {f : Frame} : f.isClear = true ↔ f = .blank := by
  rw [← lit_eq_zero_iff, isClear, lit, List.all_eq_true, List.count_eq_zero]
  constructor
  · intro h hmem
    exact absurd (h true hmem) Bool.false_ne_true
  · intro h cell hmem
    cases cell with
    | false => rfl
    | true => exact absurd hmem h

/-! ## The text -/

/-- **The text** has a line for each row, and a mark in it for each pixel. -/
theorem toList_text (f : Frame) :
    f.text.toList = (List.range 32).flatMap fun y =>
      ((List.range 64).map fun x => if f.pixel x y then '#' else '.') ++ ['\n'] := by
  have hrows : f.rows.toList.flatMap line =
      f.rowLists.flatMap fun row => row.map mark ++ ['\n'] := by
    rw [rowLists, List.flatMap_map]
    rfl
  rw [text, String.toList_ofList, hrows, rowLists_eq_map, List.flatMap_map]
  refine congrArg List.flatten (List.map_congr_left fun y _ => ?_)
  rw [List.map_map]
  rfl

end Frame

end Chip8VM
