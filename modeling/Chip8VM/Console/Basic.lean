import Chip8VM.Buzzer
import Chip8VM.Config
import Chip8VM.Log
import Chip8VM.Machine.Basic

/-!
# The console

A console owns a machine, a buzzer and the thread of the two clocks that drive the machine. The
machine is behind a lock: whoever dies while holding it leaves the machine poisoned, and from then
on every call that needs the machine fails. This module holds what callers can do; the ticks of the
clocks are in `Chip8VM.Console.Clock`.
-/

set_option autoImplicit false

namespace Chip8VM

/-- How the thread of the clocks is doing. -/
inductive Health where
  /-- It ticks. -/
  | ticking
  /-- It ended by itself. -/
  | ended
  /-- It died. -/
  | died
deriving DecidableEq, Repr

/-- The thread of the clocks, from one start to the next stop. -/
structure ClockThread where
  health : Health
  /-- Whether the last tick of the timers sounded. -/
  sounding : Bool
  /-- The counter at which the last step failed, if it failed. -/
  faultedAt : Option Word
deriving DecidableEq, Repr

/-- A machine with its clocks and its buzzer. -/
structure Console where
  config : Config
  machine : Machine
  supply : Supply
  /-- Whether somebody died while holding the machine. -/
  poisoned : Bool
  buzzer : Buzzer
  /-- The thread of the clocks, if it was started and not stopped since. -/
  clock : Option ClockThread
  /-- The warnings and errors logged so far. -/
  alarms : List Log.Record

namespace ClockThread

/-- A thread that has not ticked yet. -/
def fresh : ClockThread := ⟨.ticking, false, none⟩

end ClockThread

namespace Console

/-! ## The machine and the log -/

/-- A new console; its clocks stand still. -/
def new (config : Config) (buzzer : Buzzer) (supply : Supply) : Console :=
  ⟨config, .new config.wrap, supply, false, buzzer, none, []⟩

/-- The machine, if it can still be had. -/
def lock (c : Console) : Except Error Machine :=
  if c.poisoned then .error .poisoned else .ok c.machine

/-- Adds to the log. -/
def alarm (c : Console) (level : Log.Level) (text : String) : Console :=
  { c with alarms := c.alarms ++ [⟨level, text⟩] }

/-- Resets the machine and then prepares it; if that fails the machine stays reset. A clock that
stands still is refused before the machine is taken hold of. -/
def resetThen (c : Console) (prepare : Machine → Except Error Machine) :
    Except Error Unit × Console :=
  match c.config.validate.bind fun _ => c.lock with
  | .error e => (.error e, c)
  | .ok m =>
    match prepare m.reset with
    | .ok m' => (.ok (), { c with machine := m' })
    | .error e => (.error e, { c with machine := m.reset })

/-- Resets the machine and loads a program. -/
def boot (c : Console) (image : List UInt8) : Except Error Unit × Console :=
  c.resetThen (·.load image)

/-- Resets the machine, reads a program and loads it. -/
def bootFrom (c : Console) (source : Reader) : Except Error Unit × Console :=
  c.resetThen (·.loadFrom source)

/-! ## Starting and stopping -/

/-- Whether the clocks were started and not stopped since. -/
def isRunning (c : Console) : Bool := c.clock.isSome

/-- Starts the clocks. -/
def start (c : Console) : Except Error Unit × Console :=
  if c.isRunning then (.error .alreadyRunning, c)
  else
    match c.config.validate with
    | .error e => (.error e, c)
    | .ok () => (.ok (), { c with clock := some .fresh })

/-- Tells the buzzer of the tone, unless it is muted. The reply is whether it broke down. -/
def tell (c : Console) (active : Bool) : Bool × Console :=
  if c.config.muted then (false, c)
  else
    let (broke, buzzer) := c.buzzer.setTone active
    (broke, { c with buzzer })

/-- Lets the thread end by itself: a tone that still sounds is turned off. -/
def endThread (c : Console) (t : ClockThread) : Console :=
  if t.sounding then
    let (broke, c) := c.tell false
    { c with clock := some { t with health := if broke then .died else .ended } }
  else { c with clock := some { t with health := .ended } }

/-- Lets the thread end if it still ticks, and says whether it died. -/
def joinThread (c : Console) (t : ClockThread) : Bool × Console :=
  match t.health with
  | .ticking =>
    let c := c.endThread t
    (c.clock.any (·.health = .died), { c with clock := none })
  | .ended => (false, { c with clock := none })
  | .died => (true, { c with clock := none })

/-- Stops the clocks. They stand still afterwards, whatever the reply. -/
def stop (c : Console) : Except Error Unit × Console :=
  match c.clock with
  | none => (.ok (), c)
  | some t =>
    match c.joinThread t with
    | (true, c) => (.error .clockDied, c.alarm .error "clock thread panicked")
    | (false, c) => (.ok (), c)

/-- Stops the clocks for good. -/
def close (c : Console) : Console :=
  match c.stop with
  | (.ok (), c) => c
  | (.error e, c) => c.alarm .error s!"failed to stop clocks: {e.message}"

/-! ## Calls on the machine -/

/-- Looks at the machine. -/
def inspect {α : Type} (c : Console) (look : Machine → α) : Except Error α := c.lock.map look

/-- Changes the machine, with a reply. -/
def change {α : Type} (c : Console) (f : Machine → α × Machine) : Except Error α × Console :=
  match c.lock with
  | .error e => (.error e, c)
  | .ok m => let (a, m') := f m; (.ok a, { c with machine := m' })

/-- Changes the machine, unless that fails. -/
def attempt (c : Console) (f : Machine → Except Error Machine) : Except Error Unit × Console :=
  match c.lock.bind f with
  | .error e => (.error e, c)
  | .ok m => (.ok (), { c with machine := m })

/-- Freezes the machine while the clocks go on. -/
def pause (c : Console) : Except Error Unit × Console := c.change fun m => ((), m.pause)

/-- Lets the machine go on. -/
def resume (c : Console) : Except Error Unit × Console := c.change fun m => ((), m.resume)

/-- Whether the machine is paused. -/
def isPaused (c : Console) : Except Error Bool := c.inspect (·.paused)

/-- A copy of the frame. -/
def frame (c : Console) : Except Error Frame := c.inspect (·.state.frame)

/-- The frame, if the screen was drawn on since it was last taken. -/
def takeFrame (c : Console) : Except Error (Option Frame) × Console := c.change (·.takeFrame)

/-- Puts a key down. -/
def press (c : Console) (key : UInt8) : Except Error Unit × Console := c.attempt (·.press key)

/-- Lets a key up. -/
def release (c : Console) (key : UInt8) : Except Error Unit × Console := c.attempt (·.release key)

/-- Whether the tone should be sounding now. -/
def toneActive (c : Console) : Except Error Bool := c.inspect (·.toneActive)

/-- Puts a new observer on the list. -/
def subscribe (c : Console) (capacity : Nat) : Except Error Nat × Console :=
  c.change (·.subscribe capacity)

/-- Lets somebody die while holding the machine. Whoever comes later cannot even take hold of it. -/
def poison (c : Console) : Except Error Unit × Console :=
  match c.lock with
  | .error e => (.error e, c)
  | .ok _ => (.ok (), { c with poisoned := true })

/-! ## Observers -/

/-- Lets an observer read its oldest cycle, which needs no hold of the machine. -/
def receive (c : Console) (observer : Nat) : Option Cycle × Console :=
  let (cycle, machine) := c.machine.receive observer
  (cycle, { c with machine })

/-- Lets an observer read all it holds. -/
def drain (c : Console) (observer : Nat) : Array Cycle × Console :=
  let (cycles, observers) := c.machine.observers.drain observer
  (cycles, { c with machine := { c.machine with observers } })

/-- Lets an observer leave. -/
def unsubscribe (c : Console) (observer : Nat) : Console :=
  { c with machine := c.machine.unsubscribe observer }

end Console

end Chip8VM
