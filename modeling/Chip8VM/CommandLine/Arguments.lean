import Chip8VM.CommandLine.Key
import Chip8VM.Config

/-!
# The arguments of the runner

A program file, the rate of the instruction clock, how long to run, the keys held down, the way
sprites wrap, and whether every frame is printed. Each option is given at most once, except for held
keys, of which there may be many.
-/

set_option autoImplicit false

namespace Chip8VM.CommandLine

/-- What the runner is to do. -/
structure Arguments where
  /-- The path of the program file. -/
  program : String
  hz : UInt32
  /-- How long to run, in milliseconds. -/
  millis : UInt64
  /-- The keys held down, in the order in which they were given. -/
  hold : List UInt8
  toroidal : Bool
  everyFrame : Bool
deriving DecidableEq, Repr

/-- How the console of the runner is configured. It is always muted. -/
def Arguments.config (a : Arguments) : Config where
  instructionHz := a.hz
  wrap := if a.toroidal then .toroidal else .flat
  muted := true

/-- Why arguments are not carried out. -/
inductive Usage where
  /-- An argument that the runner does not have. -/
  | unknownArgument
  /-- A value is missing or empty. -/
  | invalidValue
  /-- A value has the wrong form. -/
  | valueValidation
  /-- The program file is missing. -/
  | missingRequired
  /-- An option was given twice. -/
  | conflict
  /-- A flag was given a value. -/
  | tooManyValues
  /-- The help text was asked for. -/
  | help
  /-- The version was asked for. -/
  | version
deriving DecidableEq, Repr

/-- An argument that takes a value. -/
inductive Slot where
  | program
  | hz
  | millis
  | hold
deriving DecidableEq, Repr

/-- An option without a value. -/
inductive Flag where
  | toroidal
  | everyFrame
  | help
  | version
deriving DecidableEq, Repr

/-- What has been given so far. -/
structure Draft where
  program : Option String := none
  hz : Option UInt32 := none
  millis : Option UInt64 := none
  hold : List UInt8 := []
  toroidal : Bool := false
  everyFrame : Bool := false
deriving DecidableEq, Repr

namespace Draft

/-- Whether a value was given that can be given only once. -/
def isTaken (d : Draft) : Slot → Bool
  | .program => d.program.isSome
  | .hz => d.hz.isSome
  | .millis => d.millis.isSome
  | .hold => false

/-- Reads a rate in hertz: a decimal number of 32 bits, whose sign may be written. -/
def parseHz? (text : String) : Option UInt32 := do
  let n ← Numeral.signed? text
  if 0 ≤ n ∧ n < 4294967296 then some (UInt32.ofNat n.toNat) else none

/-- Reads a time in milliseconds: a decimal number of 64 bits. -/
def parseMillis? (text : String) : Option UInt64 := do
  let n ← Numeral.unsigned? text
  if n < 18446744073709551616 then some (UInt64.ofNat n) else none

/-- Puts a value into its slot. -/
def fill (d : Draft) (slot : Slot) (text : String) : Except Usage Draft :=
  match slot with
  | .program =>
    if text.isEmpty then .error .invalidValue else .ok { d with program := some text }
  | .hz =>
    match parseHz? text with
    | some hz => .ok { d with hz := some hz }
    | none => .error .valueValidation
  | .millis =>
    match parseMillis? text with
    | some millis => .ok { d with millis := some millis }
    | none => .error .valueValidation
  | .hold =>
    match parseKey? text with
    | some key => .ok { d with hold := d.hold ++ [key] }
    | none => .error .valueValidation

/-- Takes an argument with the value that was given for it. A missing value comes before a slot that
is taken, and that before a value of the wrong form. -/
def take (d : Draft) (slot : Slot) : Option String → Except Usage Draft
  | none => .error .invalidValue
  | some text => if d.isTaken slot then .error .conflict else d.fill slot text

/-- Takes a flag. -/
def raise (d : Draft) : Flag → Except Usage Draft
  | .help => .error .help
  | .version => .error .version
  | .toroidal => if d.toroidal then .error .conflict else .ok { d with toroidal := true }
  | .everyFrame => if d.everyFrame then .error .conflict else .ok { d with everyFrame := true }

/-- The arguments, with the defaults for what was not given. -/
def finish (d : Draft) : Except Usage Arguments :=
  match d.program with
  | none => .error .missingRequired
  | some program =>
    .ok ⟨program, d.hz.getD 2000, d.millis.getD 1000, d.hold, d.toroidal, d.everyFrame⟩

end Draft

end Chip8VM.CommandLine
