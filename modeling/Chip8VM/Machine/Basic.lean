import Chip8VM.Execution
import Chip8VM.Instruction.Encoding
import Chip8VM.Observers
import Chip8VM.Reader
import Chip8VM.Supply

/-!
# The machine

A state together with what surrounds it: whether it is paused, the size of its program, the way its
sprites wrap, and its observers. A step carries out one instruction and commits its state only if
the instruction completed.
-/

set_option autoImplicit false

namespace Chip8VM

/-- A virtual machine. -/
structure Machine where
  state : State
  paused : Bool
  /-- Bytes of the program loaded last, 0 if there is none. -/
  programSize : Nat
  wrap : Wrap
  observers : Observers
deriving DecidableEq

/-- What a step did. -/
inductive Step where
  /-- The instruction completed. -/
  | executed (c : Cycle)
  /-- The instruction waits for a key, and the next step tries it again. -/
  | awaitingKey
  /-- The machine is paused and nothing ran. -/
  | paused
  /-- The program is stuck. -/
  | failed (f : Fault)
  /-- The machine cannot go on. -/
  | trapped (t : Trap)
deriving DecidableEq, Repr

/-- The reply to something done with a machine, and what it leaves behind. -/
structure After (α : Type) where
  reply : α
  machine : Machine
  supply : Supply

namespace Machine

/-- A new machine. -/
def new (wrap : Wrap) : Machine := ⟨.powerOn, false, 0, wrap, .empty⟩

/-- Goes back to power-on. The way sprites wrap and the observers stay. -/
def reset (m : Machine) : Machine :=
  { m with state := .powerOn, paused := false, programSize := 0 }

/-- Copies a program into memory, if it is not too large for it. -/
def load (m : Machine) (image : List UInt8) : Except Error Machine :=
  if image.length > Memory.maxProgram then
    .error (.imageTooLarge image.length Memory.maxProgram)
  else do
    let memory ← (m.state.memory.write Memory.programStart image).mapError .fault
    return { m with state := { m.state with memory }, programSize := image.length }

/-- Reads a program and copies it into memory. -/
def loadFrom (m : Machine) (source : Reader) : Except Error Machine := do
  let image ← source.readAll.mapError .unreadable
  m.load image

/-! ## Steps and ticks -/

/-- Commits a completed instruction and tells the observers. -/
def commit (m : Machine) (next : State) (c : Cycle) : Machine :=
  { m with state := next, observers := m.observers.notify c }

/-- Carries out the instruction of a word that was fetched at the counter. -/
def perform (m : Machine) (u : Supply) (word : Word) : After Step :=
  match Instruction.decode? word with
  | none => ⟨.failed (.unknownInstruction word m.state.pc), m, u⟩
  | some i =>
    match i.execute m.wrap u.peek m.state with
    | .ok next =>
      let c : Cycle := ⟨word, m.state.pc⟩
      ⟨.executed c, m.commit next c, if i.takesRandom then u.advance else u⟩
    | .error .awaitingKey => ⟨.awaitingKey, m, u⟩
    | .error (.fault f) => ⟨.failed f, m, u⟩
    | .error (.trap t) => ⟨.trapped t, m, u⟩

/-- Carries out the instruction at the counter, unless the machine is paused. -/
def step (m : Machine) (u : Supply) : After Step :=
  if m.paused then ⟨.paused, m, u⟩
  else
    match m.state.fetch with
    | .error f => ⟨.failed f, m, u⟩
    | .ok word => m.perform u word

/-- Counts both timers down once, unless the machine is paused. The reply is whether the tone sounds
for this tick: whether the sound timer was not zero before. -/
def tick (m : Machine) : Bool × Machine :=
  if m.paused then (false, m)
  else
    let s := m.state
    (s.sound != 0,
     { m with state := { s with
        delay := if s.delay = 0 then 0 else s.delay - 1
        sound := if s.sound = 0 then 0 else s.sound - 1 } })

/-- Whether the tone should be sounding now. -/
def toneActive (m : Machine) : Bool := m.state.sound != 0

/-! ## Keys, frames and observers -/

/-- Puts a key down or up. -/
def setKey (m : Machine) (key : UInt8) (down : Bool) : Except Error Machine :=
  if h : key.toNat < 16 then
    .ok { m with state := { m.state with keys := m.state.keys.set ⟨key.toNat, h⟩ down } }
  else .error (.noSuchKey key)

/-- Puts a key down. -/
def press (m : Machine) (key : UInt8) : Except Error Machine := m.setKey key true

/-- Lets a key up. -/
def release (m : Machine) (key : UInt8) : Except Error Machine := m.setKey key false

/-- Whether a key is down. -/
def isKeyDown (m : Machine) (key : UInt8) : Bool := m.state.keys.isDown key.toNat

/-- The frame, if the screen was drawn on since it was last taken; it then counts as taken. -/
def takeFrame (m : Machine) : Option Frame × Machine :=
  if m.state.drawn then
    (some m.state.frame, { m with state := { m.state with drawn := false } })
  else (none, m)

/-- Freezes the instructions and the timers. -/
def pause (m : Machine) : Machine := { m with paused := true }

/-- Lets the instructions and the timers go on. -/
def resume (m : Machine) : Machine := { m with paused := false }

/-- Puts a new observer on the list; the reply is its number. -/
def subscribe (m : Machine) (capacity : Nat) : Nat × Machine :=
  (m.observers.joined, { m with observers := m.observers.join capacity })

/-- Lets an observer read its oldest cycle. -/
def receive (m : Machine) (observer : Nat) : Option Cycle × Machine :=
  let (c, observers) := m.observers.receive observer
  (c, { m with observers })

/-- Lets an observer leave. -/
def unsubscribe (m : Machine) (observer : Nat) : Machine :=
  { m with observers := m.observers.leave observer }

end Machine

end Chip8VM
