import Chip8VM.Log
import Chip8VM.Machine.Operation

/-!
# Transcripts

What a machine logs of the operations carried out on it: a reset, a program that was loaded, and
each instruction that a step fetched, with the registers as they were before it.
-/

set_option autoImplicit false

namespace Chip8VM

/-- Something that a machine logs. -/
inductive Notice where
  | reset
  /-- A program of `size` bytes was loaded. -/
  | loaded (size : Nat)
  /-- A step fetched the word at `pc`; `v` and `index` are the registers before it. -/
  | fetched (word : Word) (v : Vector UInt8 16) (index pc : Word)
deriving DecidableEq

namespace Notice

/-- The level of a notice. -/
def level : Notice → Log.Level
  | .reset => .debug
  | .loaded _ => .info
  | .fetched .. => .trace

/-- The text of a notice. -/
def text : Notice → String
  | .reset => "machine reset"
  | .loaded size => s!"loaded {size} byte ROM at 0x" ++ Hex.upper 3 Memory.programStart
  | .fetched word v index pc =>
    let registers := ", ".intercalate (v.toList.map fun b => Hex.upper 2 b.toNat)
    Hex.upper 4 word.toNat ++ " v[" ++ registers ++ "] i" ++ Hex.upper 4 index.toNat ++
      " pc" ++ Hex.upper 4 pc.toNat

/-- The record of a notice. -/
def record (n : Notice) : Log.Record := ⟨n.level, n.text⟩

end Notice

namespace Operation

/-- The notice of a program that was loaded, if it was. -/
def loadNotices : Except Error Machine → List Notice
  | .ok m => [.loaded m.programSize]
  | .error _ => []

/-- What a step logs: the word that it fetched, whatever became of it. -/
def stepNotices (m : Machine) : List Notice :=
  if m.paused then []
  else
    match m.state.fetch with
    | .ok word => [.fetched word m.state.v m.state.index m.state.pc]
    | .error _ => []

/-- What carrying out an operation logs. -/
def notices (m : Machine) : Operation → List Notice
  | .reset => [.reset]
  | .load image => loadNotices (m.load image)
  | .loadFrom source => loadNotices (m.loadFrom source)
  | .step => stepNotices m
  | _ => []

end Operation

/-- A machine in use, with what it logged so far. -/
structure Transcript where
  machine : Machine
  supply : Supply
  log : Array Notice

namespace Transcript

/-- Carries an operation out and logs it. -/
def perform (t : Transcript) (op : Operation) : Reply × Transcript :=
  let a := op.apply t.machine t.supply
  (a.reply, ⟨a.machine, a.supply, t.log ++ (op.notices t.machine).toArray⟩)

/-- Takes one step. -/
def step (t : Transcript) : Step × Transcript :=
  let a := t.machine.step t.supply
  (a.reply, ⟨a.machine, a.supply, t.log ++ (Operation.stepNotices t.machine).toArray⟩)

/-- Takes `n` steps, whatever they do; for each one what it did and the state behind it. -/
def trace (t : Transcript) : Nat → List (Step × State) × Transcript
  | 0 => ([], t)
  | n + 1 =>
    let (did, t) := t.step
    let (rest, t') := t.trace n
    ((did, t.machine.state) :: rest, t')

/-- Takes steps until `limit` of them completed an instruction or one did not. The reply is how many
did, and the step that did not. -/
def runFor (t : Transcript) (limit : Nat) (executed : Nat) :
    Nat × Option Step × Transcript :=
  match limit with
  | 0 => (executed, none, t)
  | n + 1 =>
    match t.step with
    | (.executed _, t) => t.runFor n (executed + 1)
    | (did, t) => (executed, some did, t)

/-- Counts the timers down `n` times; the reply is how many of the ticks sounded. -/
def ticks (t : Transcript) : Nat → Nat × Transcript
  | 0 => (0, t)
  | n + 1 =>
    let (sounding, machine) := t.machine.tick
    let (count, t') := ticks { t with machine } n
    (count + sounding.toNat, t')

end Transcript

end Chip8VM
