import Chip8VM.Frame.Basic

/-!
# A frame as text

A frame is written as 32 lines of 64 characters, `#` for a lit pixel and `.` for an unlit one,
each line ended by a newline. `parse?` reads such a text back (`parse?_text`).
-/

set_option autoImplicit false

namespace Chip8VM.Frame

/-- The character of a pixel. -/
def mark (lit : Bool) : Char := if lit then '#' else '.'

/-- The pixel of a character. -/
def unmark? (c : Char) : Option Bool :=
  if c = '#' then some true else if c = '.' then some false else none

/-- The characters of one line, with the newline that ends it. -/
def line (row : Vector Bool 64) : List Char := row.toList.map mark ++ ['\n']

/-- The frame as 32 lines. -/
def text (f : Frame) : String :=
  String.ofList (f.rows.toList.flatMap line)

/-- A headline with the number of lit pixels above the text of the frame. -/
def describe (f : Frame) : String :=
  s!"FrameBuffer({f.lit} lit)\n" ++ f.text

/-- The cells of lines of 64 characters, each ended by a newline. -/
def cellsOfLines? : Nat → List Char → Option (List Bool)
  | 0, [] => some []
  | 0, _ :: _ => none
  | n + 1, cs => do
    let row ← (cs.take 64).mapM unmark?
    match cs.drop 64 with
    | '\n' :: rest => return row ++ (← cellsOfLines? n rest)
    | _ => none

/-- Reads a frame from its text. -/
def parse? (s : String) : Option Frame := do
  let cells ← cellsOfLines? 32 s.toList
  if h : cells.toArray.size = 2048 then some ⟨⟨cells.toArray, h⟩⟩ else none

/-- A row as a number of 64 bits, the leftmost pixel in the highest one. -/
def rowBits (row : Vector Bool 64) : Nat :=
  row.toList.foldl (fun n lit => 2 * n + lit.toNat) 0

/-- The rows with at least one lit pixel, each with its number, from top to bottom. -/
def litRows (f : Frame) : List (Nat × Nat) :=
  (f.rows.toList.zipIdx.map fun (row, y) => (y, rowBits row)).filter fun (_, bits) => bits != 0

/-- The frame in which the given rows are changed over on a blank screen, each row a number of 64
bits with the leftmost pixel in the highest one. Rows off the screen are left out. -/
def ofRows (rows : List (Nat × Nat)) : Frame :=
  rows.foldl (fun f (y, bits) =>
    (List.range 64).foldl (fun f x =>
      if h : x + 64 * y < 2048 then
        if bits.testBit (63 - x) then f.flip ⟨x + 64 * y, h⟩ else f
      else f) f) blank

/-! ## Reading the text back -/

theorem flatMap_toList {m n : Nat} (rows : Vector (Vector Bool n) m) :
    rows.toList.flatMap Vector.toList = rows.flatten.toList := by
  obtain ⟨xs, h⟩ := rows
  simp only [Vector.flatten_mk, Vector.toList_mk, Array.toList_flatten, Array.toList_map,
    List.map_map, List.flatMap_def]
  rfl

theorem unmark?_mark (lit : Bool) : unmark? (mark lit) = some lit := by
  cases lit <;> rfl

theorem mapM_unmark?_mark (row : List Bool) : (row.map mark).mapM unmark? = some row := by
  induction row with
  | nil => rfl
  | cons lit rest ih => simp [unmark?_mark, ih]

theorem take_line (row : Vector Bool 64) (rest : List Char) :
    (line row ++ rest).take 64 = row.toList.map mark := by
  have hl : (row.toList.map mark).length = 64 := by simp
  rw [line, List.append_assoc, List.take_append_of_le_length (by omega),
    List.take_of_length_le (by omega)]

theorem drop_line (row : Vector Bool 64) (rest : List Char) :
    (line row ++ rest).drop 64 = '\n' :: rest := by
  have hl : (row.toList.map mark).length = 64 := by simp
  rw [line, List.append_assoc, List.drop_append_of_le_length (by omega),
    List.drop_of_length_le (by omega)]
  rfl

theorem cellsOfLines?_line (rows : List (Vector Bool 64)) :
    cellsOfLines? rows.length (rows.flatMap line) = some (rows.flatMap Vector.toList) := by
  induction rows with
  | nil => rfl
  | cons row rest ih =>
    simp only [List.flatMap_cons, List.length_cons, cellsOfLines?, take_line, drop_line,
      mapM_unmark?_mark, ih, Option.bind_eq_bind, Option.bind_some, Option.pure_def]

/-- A frame is read back from its text. -/
theorem parse?_text (f : Frame) : parse? f.text = some f := by
  have h : cellsOfLines? 32 (f.rows.toList.flatMap line) = some f.cells.toList := by
    have := cellsOfLines?_line f.rows.toList
    rwa [Vector.length_toList, flatMap_toList, flatten_rows] at this
  simp only [parse?, text, String.toList_ofList, h, Option.bind_eq_bind, Option.bind_some,
    List.size_toArray, Vector.length_toList, dif_pos]
  rfl

end Chip8VM.Frame
