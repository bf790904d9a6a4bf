import Chip8VM.Frame.Text

/-!
# Which texts are frames

A text is read as a frame only if it is the text of that frame (`Frame.parse?_eq_some_iff`). Its
lines are found one by one, each with 64 marks and its newline
(`Frame.exists_rows_of_cellsOfLines?`), and no other rows have the cells of a frame than its own
(`Frame.eq_rows_of_flatMap`). Two frames with the same text are therefore the same.
-/

set_option autoImplicit false

namespace Chip8VM.Frame

/-! ## A line -/

theorem unmark?_eq_some_iff {c : Char} {lit : Bool} : unmark? c = some lit ↔ c = mark lit := by
  constructor
  · intro h
    unfold unmark? at h
    split at h
    · next hc =>
      cases h
      exact hc
    · split at h
      · next hc =>
        cases h
        exact hc
      · cases h
  · rintro rfl
    exact unmark?_mark lit

theorem mapM_unmark?_eq_some_iff {cs : List Char} {row : List Bool} :
    cs.mapM unmark? = some row ↔ cs = row.map mark := by
  constructor
  · intro h
    induction cs generalizing row with
    | nil =>
      cases h
      rfl
    | cons c cs ih =>
      rw [List.mapM_cons] at h
      obtain ⟨lit, hlit, hcs⟩ := Option.bind_eq_some_iff.1 h
      obtain ⟨rest, hrest, hrow⟩ := Option.bind_eq_some_iff.1 hcs
      cases hrow
      rw [List.map_cons, ← unmark?_eq_some_iff.1 hlit, ← ih hrest]
  · rintro rfl
    exact mapM_unmark?_mark row

/-! ## All lines -/

/-- What is read as the cells of lines is the text of rows with these cells. -/
theorem exists_rows_of_cellsOfLines? {n : Nat} {cs : List Char} {cells : List Bool}
    (h : cellsOfLines? n cs = some cells) :
    ∃ rows : List (Vector Bool 64), rows.length = n ∧ cs = rows.flatMap line ∧
      cells = rows.flatMap Vector.toList := by
  induction n generalizing cs cells with
  | zero =>
    cases cs with
    | nil =>
      cases h
      exact ⟨[], rfl, rfl, rfl⟩
    | cons c cs => cases h
  | succ n ih =>
    obtain ⟨row, hrow, hrest⟩ := Option.bind_eq_some_iff.1 h
    have htake : cs.take 64 = row.map mark := mapM_unmark?_eq_some_iff.1 hrow
    split at hrest
    · next rest hdrop =>
      obtain ⟨cells', hcells, hall⟩ := Option.bind_eq_some_iff.1 hrest
      cases hall
      obtain ⟨rows, hlen, rfl, rfl⟩ := ih hcells
      -- There is a newline behind the marks, so there are 64 of them.
      have hsize : row.length = 64 := by
        have h1 := congrArg List.length htake
        have h2 := congrArg List.length hdrop
        simp only [List.length_take, List.length_drop, List.length_map, List.length_cons] at h1 h2
        omega
      refine ⟨⟨row.toArray, hsize⟩ :: rows, congrArg (· + 1) hlen, ?_, rfl⟩
      calc cs = cs.take 64 ++ cs.drop 64 := (List.take_append_drop 64 cs).symm
        _ = row.map mark ++ '\n' :: rows.flatMap line := by rw [htake, hdrop]
        _ = (⟨row.toArray, hsize⟩ :: rows : List (Vector Bool 64)).flatMap line := by
          rw [List.flatMap_cons, line, List.append_assoc]
          rfl
    · cases hrest

/-- No other 32 rows have the cells of a frame than its own. -/
theorem eq_rows_of_flatMap {f : Frame} {rows : List (Vector Bool 64)} (hlen : rows.length = 32)
    (h : rows.flatMap Vector.toList = f.cells.toList) : rows = f.rows.toList := by
  have hflat : (rows.map Vector.toList).flatten = (f.rows.toList.map Vector.toList).flatten := by
    rw [← List.flatMap_def, ← List.flatMap_def, h, flatMap_toList, flatten_rows]
  have hwidth : ∀ rows : List (Vector Bool 64),
      (rows.map Vector.toList).map List.length = List.replicate rows.length 64 := by
    intro rows
    rw [List.map_map, List.eq_replicate_iff]
    simp
  have hlists : rows.map Vector.toList = f.rows.toList.map Vector.toList := by
    rw [List.eq_iff_flatten_eq]
    refine ⟨hflat, ?_⟩
    rw [hwidth, hwidth, hlen, Vector.length_toList]
  exact (List.map_inj_right fun _ _ => Vector.toList_inj.1).1 hlists

/-- **A text is read as a frame** exactly if it is the text of that frame. -/
theorem parse?_eq_some_iff {s : String} {f : Frame} : parse? s = some f ↔ s = f.text := by
  constructor
  · intro h
    obtain ⟨cells, hcells, hframe⟩ := Option.bind_eq_some_iff.1 h
    split at hframe
    · cases hframe
      obtain ⟨rows, hlen, hs, rfl⟩ := exists_rows_of_cellsOfLines? hcells
      rw [text, ← eq_rows_of_flatMap hlen rfl, ← hs, String.ofList_toList]
    · cases hframe
  · rintro rfl
    exact parse?_text f

theorem text_inj {f g : Frame} : f.text = g.text ↔ f = g := by
  constructor
  · intro h
    have hg : parse? f.text = some g := parse?_eq_some_iff.2 h
    rw [parse?_text] at hg
    exact Option.some.inj hg
  · exact congrArg text

end Chip8VM.Frame
