import Chip8VM.Proofs.Machine.Looking
import Chip8VM.Proofs.Machine.Moments

/-!
# Loading a program

What a source of bytes holds is told from its attempts alone: `Reader.content` is what the attempts
give that come before the one that ends the reading, and `Reader.failure?` the reason of that one if
it failed. Reading everything gives the content or the reason (`Reader.readAll_eq`), so that loading
from a source is loading its content, or nothing at all. A load puts the whole image at `0x200` or
leaves everything as it was (`Operation.load_apply`), and the size of the program is that of the
last load that succeeded since the last reset (`Operation.programSize_run`).
-/

set_option autoImplicit false

namespace Chip8VM

/-! ## What a source holds -/

namespace Reader

/-- The bytes that an attempt gives. -/
def Event.piece : Event → List UInt8
  | .bytes piece => piece
  | _ => []

/-- Whether there is another attempt behind this one: it gave some bytes or was interrupted. -/
def Event.goesOn : Event → Bool
  | .bytes piece => !piece.isEmpty
  | .interrupted => true
  | .failed _ => false

/-- The reason of an attempt that failed. -/
def Event.reason? : Event → Option String
  | .failed reason => some reason
  | _ => none

/-- All bytes that a source gives before it ends or fails. -/
def content (r : Reader) : List UInt8 := (r.takeWhile Event.goesOn).flatMap Event.piece

/-- The reason why a source fails, if it does. -/
def failure? (r : Reader) : Option String := (r.find? (!·.goesOn)).bind Event.reason?

theorem content_cons {e : Event} (h : e.goesOn = true) (r : Reader) :
    content (e :: r) = e.piece ++ content r := by
  rw [content, List.takeWhile_cons, if_pos h, List.flatMap_cons, content]

theorem failure?_cons {e : Event} (h : e.goesOn = true) (r : Reader) :
    failure? (e :: r) = failure? r := by
  rw [failure?, List.find?_cons, h, failure?]
  rfl

theorem readFrom_eq (front : List UInt8) (r : Reader) :
    readFrom front r = r.failure?.elim (.ok (front.reverse ++ r.content)) .error := by
  fun_induction readFrom front r with
  | case1 front => simp [failure?, content]
  | case2 front rest ih =>
    rw [ih, failure?_cons rfl, content_cons rfl]
    rfl
  | case3 front reason rest => rfl
  | case4 front rest => simp [failure?, content, Event.goesOn, Event.reason?]
  | case5 front b piece rest ih =>
    rw [ih, failure?_cons rfl, content_cons rfl, Event.piece, List.reverse_append,
      List.reverse_reverse, List.append_assoc]

/-- **Everything is read**, however it is cut and interrupted, or the reason why it cannot be. -/
theorem readAll_eq (r : Reader) : r.readAll = r.failure?.elim (.ok r.content) .error :=
  readFrom_eq [] r

end Reader

/-! ## One load -/

namespace Operation

theorem load_apply (m : Machine) (u : Supply) (image : List UInt8) :
    (load image).apply m u =
      if image.length > 3584 then ⟨.failed (.imageTooLarge image.length 3584), m, u⟩
      else ⟨.done, m.loaded image, u⟩ := by
  rw [apply, Machine.load_eq]
  split <;> rfl

theorem loadFrom_apply (m : Machine) (u : Supply) (source : Reader) :
    (loadFrom source).apply m u =
      source.failure?.elim ((load source.content).apply m u)
        fun reason => ⟨.failed (.unreadable reason), m, u⟩ := by
  simp only [apply, Machine.loadFrom, source.readAll_eq]
  cases source.failure? <;> rfl

/-- The size of the program that an operation with the given reply loaded, if it loaded one. -/
def loaded? : Operation → Reply → Option Nat
  | .load image, .done => some image.length
  | .loadFrom source, .done => some source.content.length
  | _, _ => none

end Operation

/-- The size of the program that was loaded last since the last reset, and 0 if there was none. -/
def Moment.loadedSize (ts : List Moment) : Nat :=
  ((sinceReset ts).reverse.findSome? fun t => t.operation.loaded? t.reply).getD 0

theorem Moment.loadedSize_concat (ts : List Moment) (t : Moment) :
    loadedSize (ts ++ [t]) =
      if t.operation = .reset then 0 else (t.operation.loaded? t.reply).getD (loadedSize ts) := by
  rw [loadedSize, sinceReset_concat]
  split
  · rfl
  · rw [List.reverse_concat, List.findSome?_cons, loadedSize]
    cases t.operation.loaded? t.reply <;> rfl

namespace Operation

/-! ## The size of the program -/

theorem programSize_apply (m : Machine) (u : Supply) (op : Operation) :
    (op.apply m u).machine.programSize =
      if op = .reset then 0 else (op.loaded? (op.apply m u).reply).getD m.programSize := by
  by_cases hs : op = .step
  · subst hs
    exact m.programSize_step u
  have hc := change m u hs
  cases op with
  | step => exact absurd rfl hs
  | reset => rfl
  | load image =>
    rw [load_apply]
    split <;> rfl
  | loadFrom source =>
    rw [loadFrom_apply]
    cases source.failure? with
    | some reason => rfl
    | none =>
      simp only [Option.elim_none, load_apply]
      split <;> rfl
  | _ =>
    rw [if_neg nofun]
    generalize (apply m u _).machine = m' at hc ⊢
    cases hc <;> rfl

/-- **The size of the program** is that of the last one loaded. -/
theorem programSize_run {m : Machine} (hm : m.programSize = 0) (u : Supply) (ops : List Operation) :
    (run m u ops).machine.programSize = Moment.loadedSize (moments m u ops) := by
  induction ops using List.reverseRecOn with
  | nil => exact hm
  | append_singleton ops op ih =>
    rw [run_concat, moments_concat, Moment.loadedSize_concat, operation_moment]
    show (op.apply _ _).machine.programSize = _
    rw [programSize_apply, ih]
    rfl

end Operation

/-- **A load replaces bytes, or changes nothing.** An image of more than 3584 bytes is refused, and
everything stays as it was. Any other image fits: from `0x200` on its bytes take the place of those
that stood there, its length is the size of the program, and all else stays as it was, the bytes
behind the image included. Loading from a source is loading its content, however the source cuts it
and however often it is interrupted; a source that fails changes nothing, whatever it gave before
that. In every history of a new machine, the size of the program is that of the last load that
succeeded since the last reset, or 0. -/
theorem load_replaces_bytes :
    (∀ (m : Machine) (u : Supply) (image : List UInt8),
      (3584 < image.length → (Operation.load image).apply m u =
        ⟨.failed (.imageTooLarge image.length 3584), m, u⟩) ∧
      (image.length ≤ 3584 → ∃ memory : Memory,
        m.state.memory.write 0x200 image = .ok memory ∧
        (∀ a (h : a < 4096), memory.bytes[a] =
          if hb : 0x200 ≤ a ∧ a < 0x200 + image.length then image.get ⟨a - 0x200, by omega⟩
          else m.state.memory.bytes[a]) ∧
        (Operation.load image).apply m u =
          ⟨.done, { m with state := { m.state with memory }, programSize := image.length }, u⟩)) ∧
    (∀ (m : Machine) (u : Supply) (source : Reader),
      (source.failure? = none → (Operation.loadFrom source).apply m u =
        (Operation.load source.content).apply m u) ∧
      ∀ reason, source.failure? = some reason → (Operation.loadFrom source).apply m u =
        ⟨.failed (.unreadable reason), m, u⟩) ∧
    ∀ (wrap : Wrap) (u : Supply) (ops : List Operation),
      (Operation.run (.new wrap) u ops).machine.programSize =
        Moment.loadedSize (Operation.moments (.new wrap) u ops) := by
  refine ⟨fun m u image => ⟨fun h => ?_, fun h => ?_⟩, fun m u source => ⟨fun h => ?_, ?_⟩,
    fun wrap u ops => Operation.programSize_run rfl u ops⟩
  · rw [Operation.load_apply, if_pos h]
  · refine ⟨m.state.memory.store 0x200 image, ?_, m.state.memory.getElem_store 0x200 image, ?_⟩
    · rw [Memory.write_eq, if_neg (by omega)]
    · rw [Operation.load_apply, if_neg (Nat.not_lt_of_le h)]
      rfl
  · rw [Operation.loadFrom_apply, h, Option.elim_none]
  · intro reason h
    rw [Operation.loadFrom_apply, h, Option.elim_some]

/-- A source that hands its two bytes out one by one and is interrupted in between. -/
def Reader.halting : Reader :=
  [.interrupted, .bytes [0x60], .interrupted, .bytes [0x05], .bytes [], .bytes [0xFF]]

/-- A source that gives more bytes than there is room for, and then fails. -/
def Reader.breaking : Reader := [.bytes (List.replicate 3585 0xAB), .failed "gone"]

/-- The two bytes take the place of the first two of the program before, whose others stay; the
other source changes nothing, and neither does an image of one byte too many. -/
theorem load_replaces_bytes_of_halting_source :
    let u := Supply.ofSeed 1
    let m := (Operation.run (.new .flat) u [.load [0x60, 0x01, 0x70, 0xAA]]).machine
    (Reader.halting.failure? = none ∧ Reader.halting.content.length ≤ 3584 ∧
      Reader.breaking.failure? = some "gone" ∧ 3584 < (List.replicate 3585 (0xAB : UInt8)).length) ∧
    (∃ memory : Memory, memory.bytes[0x201] = 0x05 ∧ memory.bytes[0x203] = 0xAA ∧
      (Operation.loadFrom .halting).apply m u =
        ⟨.done, { m with state := { m.state with memory }, programSize := 2 }, u⟩) ∧
    (Operation.loadFrom .breaking).apply m u = ⟨.failed (.unreadable "gone"), m, u⟩ ∧
    (Operation.load (List.replicate 3585 0xAB)).apply m u =
      ⟨.failed (.imageTooLarge (List.replicate 3585 (0xAB : UInt8)).length 3584), m, u⟩ := by
  intro u m
  have hlast : m.state.memory.bytes[0x203] = 0xAA := by decide +kernel
  have hhalting : Reader.halting.failure? = none := rfl
  have hcontent : Reader.halting.content = [0x60, 0x05] := rfl
  have hbreaking : Reader.breaking.failure? = some "gone" := rfl
  have hlong : 3584 < (List.replicate 3585 (0xAB : UInt8)).length := by
    rw [List.length_replicate]
    omega
  obtain ⟨hload, hsource, -⟩ := load_replaces_bytes
  obtain ⟨memory, -, hbytes, hdone⟩ := (hload m u [0x60, 0x05]).2 (by decide)
  refine ⟨⟨hhalting, by decide, hbreaking, hlong⟩, ⟨memory, ?_, ?_, ?_⟩,
    (hsource m u .breaking).2 "gone" hbreaking, (hload m u _).1 hlong⟩
  · rw [hbytes 0x201 (by decide)]
    rfl
  · rw [hbytes 0x203 (by decide)]
    exact hlast
  · rw [(hsource m u .halting).1 hhalting, hcontent]
    exact hdone

end Chip8VM
