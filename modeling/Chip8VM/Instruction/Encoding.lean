import Chip8VM.Instruction.Basic
import Chip8VM.Word

/-!
# Instructions as words

Each instruction is one word: its nibbles select the instruction or carry its operands. `decode?`
reads a word, `encode` writes an instruction, and a word decodes exactly to the instruction it is
written for (`decode?_eq_some_iff`), so each decodable word has one meaning.
-/

set_option autoImplicit false

namespace Chip8VM.Instruction

/-- The instruction that a word stands for, if it stands for one. -/
def decode? (w : Word) : Option Instruction :=
  let x := w.x
  let y := w.y
  match (w.nibble 3).val with
  | 0x0 => if w = 0x00E0 then some .clear else if w = 0x00EE then some .ret else none
  | 0x1 => some (.jump w.address)
  | 0x2 => some (.call w.address)
  | 0x3 => some (.skipEqByte x w.low)
  | 0x4 => some (.skipNeByte x w.low)
  | 0x5 => if w.n = 0 then some (.skipEq x y) else none
  | 0x6 => some (.setByte x w.low)
  | 0x7 => some (.addByte x w.low)
  | 0x8 =>
    match w.n.val with
    | 0x0 => some (.copy x y)
    | 0x1 => some (.or x y)
    | 0x2 => some (.and x y)
    | 0x3 => some (.xor x y)
    | 0x4 => some (.add x y)
    | 0x5 => some (.sub x y)
    | 0x6 => some (.shiftRight x y)
    | 0x7 => some (.subFrom x y)
    | 0xE => some (.shiftLeft x y)
    | _ => none
  | 0x9 => if w.n = 0 then some (.skipNe x y) else none
  | 0xA => some (.setIndex w.address)
  | 0xB => some (.jumpPlus w.address)
  | 0xC => some (.random x w.low)
  | 0xD => some (.draw x y w.n)
  | 0xE =>
    match w.low.toNat with
    | 0x9E => some (.skipDown x)
    | 0xA1 => some (.skipUp x)
    | _ => none
  | 0xF =>
    match w.low.toNat with
    | 0x07 => some (.readDelay x)
    | 0x0A => some (.awaitKey x)
    | 0x15 => some (.setDelay x)
    | 0x18 => some (.setSound x)
    | 0x1E => some (.addIndex x)
    | 0x29 => some (.glyph x)
    | 0x33 => some (.decimal x)
    | 0x55 => some (.store x)
    | 0x65 => some (.load x)
    | _ => none
  | _ => none

/-- The word of an instruction. -/
def encode : Instruction → Word
  | .clear => 0x00E0
  | .ret => 0x00EE
  | .jump target => .ofAddress 0x1 target
  | .call target => .ofAddress 0x2 target
  | .skipEqByte x byte => .ofByte 0x3 x byte
  | .skipNeByte x byte => .ofByte 0x4 x byte
  | .skipEq x y => .ofNibbles 0x5 x y 0x0
  | .setByte x byte => .ofByte 0x6 x byte
  | .addByte x byte => .ofByte 0x7 x byte
  | .copy x y => .ofNibbles 0x8 x y 0x0
  | .or x y => .ofNibbles 0x8 x y 0x1
  | .and x y => .ofNibbles 0x8 x y 0x2
  | .xor x y => .ofNibbles 0x8 x y 0x3
  | .add x y => .ofNibbles 0x8 x y 0x4
  | .sub x y => .ofNibbles 0x8 x y 0x5
  | .shiftRight x y => .ofNibbles 0x8 x y 0x6
  | .subFrom x y => .ofNibbles 0x8 x y 0x7
  | .shiftLeft x y => .ofNibbles 0x8 x y 0xE
  | .skipNe x y => .ofNibbles 0x9 x y 0x0
  | .setIndex target => .ofAddress 0xA target
  | .jumpPlus target => .ofAddress 0xB target
  | .random x mask => .ofByte 0xC x mask
  | .draw x y rows => .ofNibbles 0xD x y rows
  | .skipDown x => .ofByte 0xE x 0x9E
  | .skipUp x => .ofByte 0xE x 0xA1
  | .readDelay x => .ofByte 0xF x 0x07
  | .awaitKey x => .ofByte 0xF x 0x0A
  | .setDelay x => .ofByte 0xF x 0x15
  | .setSound x => .ofByte 0xF x 0x18
  | .addIndex x => .ofByte 0xF x 0x1E
  | .glyph x => .ofByte 0xF x 0x29
  | .decimal x => .ofByte 0xF x 0x33
  | .store x => .ofByte 0xF x 0x55
  | .load x => .ofByte 0xF x 0x65

/-- An instruction is read back from its word. -/
theorem decode?_encode (i : Instruction) : decode? i.encode = some i := by
  cases i <;>
    simp [encode, decode?, Word.nibble_three_ofNibbles, Word.nibble_three_ofAddress,
      Word.nibble_three_ofByte, Word.x_ofNibbles, Word.y_ofNibbles, Word.n_ofNibbles,
      Word.address_ofAddress, Word.x_ofByte, Word.low_ofByte] <;> rfl

/-- A word that is read as an instruction is the word of that instruction. -/
theorem encode_of_decode? {w : Word} {i : Instruction} (h : decode? w = some i) : i.encode = w := by
  unfold decode? at h
  repeat' split at h
  all_goals first
    | (cases h; exact Word.ofAddress_eq ‹_›)
    | (cases h; exact Word.ofByte_eq ‹_› rfl)
    | (cases h; exact Word.ofByte_eq ‹_› ‹_›)
    | (cases h; exact Word.ofNibbles_eq ‹_› rfl)
    | (cases h; exact Word.ofNibbles_eq ‹_› ‹_›)
    | (cases h; exact Word.ofNibbles_eq ‹_› (congrArg Fin.val ‹w.n = 0›))
    | (cases h; exact (‹w = _›).symm)
    | cases h

/-- The words that decode are exactly the words of instructions. -/
theorem decode?_eq_some_iff {w : Word} {i : Instruction} : decode? w = some i ↔ i.encode = w :=
  ⟨encode_of_decode?, fun h => h ▸ decode?_encode i⟩

/-- No two instructions are the same word. -/
theorem eq_of_encode {w : Word} {i j : Instruction} (h : i.encode = w) (hj : decode? w = some j) :
    i = j :=
  Option.some.inj ((decode?_eq_some_iff.2 h).symm.trans hj)

end Chip8VM.Instruction
