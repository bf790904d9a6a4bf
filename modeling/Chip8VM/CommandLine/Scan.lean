import Chip8VM.CommandLine.Arguments

/-!
# Scanning the command line

Options are written `--name value` or `--name=value`, flags `--name` or as letters behind one dash;
whatever else stands there is the program file, as is everything behind a lone `--`. An argument is
taken up when the next one begins: an argument that the runner does not have at all is reported
before a wrong value of the one in front of it.
-/

set_option autoImplicit false

namespace Chip8VM.CommandLine

/-- An argument that was begun, with its value if there is one yet. -/
structure Begun where
  slot : Slot
  value : Option String
deriving DecidableEq, Repr

/-- What was scanned so far. -/
structure Scan where
  draft : Draft
  begun : Option Begun
deriving DecidableEq, Repr

/-- What a name of an option stands for. -/
inductive Named where
  | slot (s : Slot)
  | flag (f : Flag)
deriving DecidableEq, Repr

/-- The option with a long name. -/
def longName? (name : String) : Option Named :=
  match name with
  | "hz" => some (.slot .hz)
  | "millis" => some (.slot .millis)
  | "hold" => some (.slot .hold)
  | "toroidal" => some (.flag .toroidal)
  | "every-frame" => some (.flag .everyFrame)
  | "help" => some (.flag .help)
  | "version" => some (.flag .version)
  | _ => none

/-- The flag with a letter. -/
def shortName? (c : Char) : Option Flag :=
  match c with
  | 'h' => some .help
  | 'V' => some .version
  | _ => none

/-- One word of the command line. -/
inductive Token where
  /-- A lone `--`. -/
  | rest
  /-- A long option, with what stands behind `=`. -/
  | long (name : String) (value : Option String)
  /-- Letters behind one dash. -/
  | short (letters : List Char)
  /-- Anything else, a lone `-` included. -/
  | plain (text : String)
deriving DecidableEq, Repr

/-- Splits a long option at the first `=`. -/
def Token.ofLong (cs : List Char) : Token :=
  let name := String.ofList (cs.takeWhile (· != '='))
  match cs.dropWhile (· != '=') with
  | [] => .long name none
  | _ :: value => .long name (some (String.ofList value))

/-- What kind of word a text is. -/
def Token.ofText (text : String) : Token :=
  match text.toList with
  | ['-', '-'] => .rest
  | '-' :: '-' :: cs => .ofLong cs
  | ['-'] => .plain text
  | '-' :: cs => .short cs
  | _ => .plain text

namespace Scan

/-- Nothing scanned yet. -/
def fresh : Scan := ⟨{}, none⟩

/-- Takes up the argument that was begun. -/
def settle (s : Scan) : Except Usage Draft :=
  match s.begun with
  | none => .ok s.draft
  | some b => s.draft.take b.slot b.value

/-- Whether the program file was given, be it taken up or only begun. -/
def hasProgram (s : Scan) : Bool :=
  s.draft.program.isSome || s.begun.any (·.slot = .program)

/-- Begins an argument, which takes up the one before it. -/
def begin (s : Scan) (slot : Slot) (value : Option String) : Except Usage Scan := do
  return ⟨← s.settle, some ⟨slot, value⟩⟩

/-- A flag, which is taken up at once. -/
def flag (s : Scan) (f : Flag) : Except Usage Scan := do
  return ⟨← (← s.settle).raise f, none⟩

/-- A word that is no option and no value: the program file. -/
def positional (s : Scan) (text : String) : Except Usage Scan :=
  if s.hasProgram then .error .unknownArgument else s.begin .program (some text)

/-- A word that is no option: the value of the option in front of it if that wants one. -/
def plain (s : Scan) (text : String) : Except Usage Scan :=
  match s.begun with
  | some ⟨slot, none⟩ => .ok { s with begun := some ⟨slot, some text⟩ }
  | _ => s.positional text

/-- A long option. -/
def long (s : Scan) (name : String) (value : Option String) : Except Usage Scan :=
  match longName? name, value with
  | none, _ => .error .unknownArgument
  | some (.flag _), some _ => .error .tooManyValues
  | some (.flag f), none => s.flag f
  | some (.slot slot), none => s.begin slot none
  | some (.slot slot), some text => do
    return ⟨← (← s.settle).take slot (some text), none⟩

/-- Letters behind one dash. -/
def letters (s : Scan) : List Char → Except Usage Scan
  | [] => .ok s
  | c :: rest =>
    match shortName? c with
    | none => .error .unknownArgument
    | some f => do (← s.flag f).letters rest

/-- Scans words behind a lone `--`. -/
def positionals (s : Scan) : List String → Except Usage Scan
  | [] => .ok s
  | text :: rest => do (← s.positional text).positionals rest

/-- Scans words. -/
def words (s : Scan) : List String → Except Usage Scan
  | [] => .ok s
  | text :: rest =>
    match Token.ofText text with
    | .rest => s.positionals rest
    | .long name value => do (← s.long name value).words rest
    | .short cs => do (← s.letters cs).words rest
    | .plain text => do (← s.plain text).words rest

end Scan

/-- Reads the command line, without the name of the runner. -/
def parse (argv : List String) : Except Usage Arguments := do
  let scan ← Scan.fresh.words argv
  (← scan.settle).finish

end Chip8VM.CommandLine
