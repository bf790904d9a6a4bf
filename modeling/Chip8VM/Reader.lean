/-!
# Reading a program image

A source hands its bytes out in pieces, may be interrupted before any of them, and may fail. Reading
all of it (`Reader.readAll`) tries again after an interruption, ends at the first empty piece or
when there are no more, and gives nothing of what it read if the source fails. How a source cuts its
bytes into pieces makes no difference, as long as the pieces hold bytes (`readAll_ofData`).
-/

set_option autoImplicit false

namespace Chip8VM

namespace Reader

/-- What one attempt to read gives. -/
inductive Event where
  /-- Some bytes; none of them means that there are no more. -/
  | bytes (piece : List UInt8)
  /-- The attempt was interrupted and can be made again. -/
  | interrupted
  /-- The source failed. -/
  | failed (reason : String)
deriving DecidableEq, Repr

end Reader

/-- A source of bytes, as what the attempts to read from it give, one after another. After the last
one there are no more bytes. -/
abbrev Reader := List Reader.Event

namespace Reader

/-- All bytes of a source behind those of `front`, which stand in reverse. -/
def readFrom (front : List UInt8) : Reader → Except String (List UInt8)
  | [] => .ok front.reverse
  | .interrupted :: rest => readFrom front rest
  | .failed reason :: _ => .error reason
  | .bytes [] :: _ => .ok front.reverse
  | .bytes (b :: piece) :: rest => readFrom ((b :: piece).reverse ++ front) rest

/-- All bytes of a source, or the reason why it failed. -/
def readAll (r : Reader) : Except String (List UInt8) := readFrom [] r

/-- Cuts bytes into pieces of at most `most` bytes. Where no byte is allowed, there is one piece, an
empty one. -/
def pieces : Nat → List UInt8 → List (List UInt8)
  | _, [] => []
  | 0, _ :: _ => [[]]
  | most + 1, b :: rest => (b :: rest.take most) :: pieces (most + 1) (rest.drop most)
termination_by _ bytes => bytes.length
decreasing_by
  rw [List.length_drop, List.length_cons]
  omega

/-- The source that hands out `data` in pieces of at most `chunk` bytes if that is given, the first
attempt being interrupted if `interrupt` holds, and that fails behind the data if `fail` gives a
reason. -/
def ofData (data : List UInt8) (chunk : Option Nat) (interrupt : Bool) (fail : Option String) :
    Reader :=
  (if interrupt then [.interrupted] else []) ++
  (pieces (chunk.getD data.length) data).map .bytes ++
  (fail.map Event.failed).toList

/-- The source that hands out all bytes at once. -/
def ofBytes (bytes : List UInt8) : Reader := ofData bytes none false none

/-! ## What is read -/

theorem flatten_pieces {most : Nat} (h : 0 < most) (data : List UInt8) :
    (pieces most data).flatten = data := by
  fun_induction pieces most data with
  | case1 => rfl
  | case2 => simp at h
  | case3 most b rest ih => simp [ih h]

theorem ne_nil_of_mem_pieces {most : Nat} (h : 0 < most) {data piece : List UInt8}
    (hp : piece ∈ pieces most data) : piece ≠ [] := by
  fun_induction pieces most data with
  | case1 => simp at hp
  | case2 => simp at h
  | case3 most b rest ih =>
    rcases List.mem_cons.mp hp with rfl | hp
    · simp
    · exact ih h hp

/-- Reading goes on behind bytes that were read. -/
theorem readFrom_bytes (front : List UInt8) (parts : List (List UInt8)) (rest : Reader)
    (h : ∀ piece ∈ parts, piece ≠ []) :
    readFrom front (parts.map .bytes ++ rest) = readFrom (parts.flatten.reverse ++ front) rest := by
  induction parts generalizing front with
  | nil => simp
  | cons piece parts ih =>
    cases piece with
    | nil => exact absurd rfl (h [] (by simp))
    | cons b piece =>
      simp only [List.map_cons, List.cons_append, readFrom]
      rw [ih _ fun p hp => h p (List.mem_cons_of_mem _ hp)]
      simp

/-- Pieces that hold bytes are read to the end, and so is what follows them. -/
theorem readFrom_pieces {most : Nat} (h : 0 < most) (data : List UInt8) (rest : Reader) :
    readFrom [] ((pieces most data).map .bytes ++ rest) = readFrom data.reverse rest := by
  rw [readFrom_bytes _ _ _ fun _ hp => ne_nil_of_mem_pieces h hp, flatten_pieces h,
    List.append_nil]

/-- Everything is read, however it is handed out, and a source that fails gives its reason alone;
but a source that has bytes and may hand out none of them seems to have none. -/
theorem readAll_ofData (data : List UInt8) (chunk : Option Nat) (interrupt : Bool)
    (fail : Option String) :
    (ofData data chunk interrupt fail).readAll =
      if chunk = some 0 ∧ data ≠ [] then .ok []
      else
        match fail with
        | none => .ok data
        | some reason => .error reason := by
  have h : readFrom [] ((pieces (chunk.getD data.length) data).map .bytes ++
      (fail.map Event.failed).toList) =
      if chunk = some 0 ∧ data ≠ [] then .ok []
      else
        match fail with
        | none => .ok data
        | some reason => .error reason := by
    cases data with
    | nil => cases fail <;> simp [pieces, readFrom]
    | cons b rest =>
      by_cases hc : chunk = some 0
      · simp [hc, pieces, readFrom]
      · have hmost : 0 < chunk.getD (b :: rest).length := by
          cases chunk with
          | none => simp
          | some most => simpa [Nat.pos_iff_ne_zero] using hc
        rw [readFrom_pieces hmost]
        cases fail <;> simp [hc, readFrom]
  cases interrupt
  · simpa [readAll, ofData] using h
  · simpa [readAll, ofData, readFrom] using h

end Reader

end Chip8VM
