import Chip8VM.Console.Clock

/-!
# Time

A console on a line of time that is counted in nanoseconds. Both clocks first tick one period after
the start and then once in every period; when both are due the instruction clock goes first. Calls
take no time: it passes only while somebody waits.
-/

set_option autoImplicit false

namespace Chip8VM

/-- A console and the time. -/
structure Timeline where
  console : Console
  now : Nat
  /-- When the instruction clock ticks next. -/
  nextInstruction : Nat
  /-- When the timer clock ticks next. -/
  nextTimer : Nat

namespace Timeline

/-- The least time between two ticks of a clock, however high its rate. A clock above a gigahertz
has a period of zero, and time has to go on even so for a wait to come to its end. Any positive
number will do: a microsecond keeps the ticks in a wait few. -/
def leastPace : Nat := 1000

/-- The time between two ticks of a clock that was started, and so does not stand still. -/
def pace (hz : UInt32) : Nat := max leastPace ((Config.period? hz).getD 0)

/-- Nanoseconds in a millisecond. -/
def millisecond : Nat := 1000000

theorem pace_pos (hz : UInt32) : 0 < pace hz := by
  unfold pace leastPace; omega

/-- A console at the beginning of time. -/
def new (console : Console) : Timeline := ⟨console, 0, 0, 0⟩

/-- Starts the clocks now. -/
def start (t : Timeline) : Except Error Unit × Timeline :=
  match t.console.start with
  | (.ok (), console) =>
    (.ok (),
     { t with
        console
        nextInstruction := t.now + pace console.config.instructionHz
        nextTimer := t.now + pace console.config.timerHz })
  | (.error e, console) => (.error e, { t with console })

/-- When a clock ticks next. -/
def due (t : Timeline) : Nat := min t.nextInstruction t.nextTimer

/-- Lets the clock tick that is due first. -/
def tick (t : Timeline) : Timeline :=
  if t.nextInstruction ≤ t.nextTimer then
    { t with
      console := t.console.instructionTick
      now := t.nextInstruction
      nextInstruction := t.nextInstruction + pace t.console.config.instructionHz }
  else
    { t with
      console := t.console.timerTick
      now := t.nextTimer
      nextTimer := t.nextTimer + pace t.console.config.timerHz }

/-- How much of the time until a deadline the two clocks have left to tick in, taken together. -/
def remaining (deadline : Nat) (t : Timeline) : Nat :=
  (deadline + 1 - t.nextInstruction) + (deadline + 1 - t.nextTimer)

/-- A tick that is due before the deadline uses some of that time up. -/
theorem remaining_tick {deadline : Nat} {t : Timeline} (h : t.due ≤ deadline) :
    remaining deadline t.tick < remaining deadline t := by
  have h1 := pace_pos t.console.config.instructionHz
  have h2 := pace_pos t.console.config.timerHz
  unfold due at h
  unfold tick remaining
  split <;> simp only <;> omega

/-- Lets time pass until the condition holds, at most until the deadline. The reply is whether it
came to hold. -/
def waitUntil (holds : Console → Bool) (deadline : Nat) (t : Timeline) : Bool × Timeline :=
  if holds t.console then (true, t)
  else if h : t.console.isTicking ∧ t.due ≤ deadline then
    have := remaining_tick h.2
    waitUntil holds deadline t.tick
  else (false, { t with now := max t.now deadline })
termination_by remaining deadline t

/-- Lets milliseconds pass. -/
def sleep (t : Timeline) (millis : Nat) : Timeline :=
  (t.waitUntil (fun _ => false) (t.now + millis * millisecond)).2

/-- Waits for the next `count` cycles of an observer, for each one at most `patience`
nanoseconds. -/
def collect (t : Timeline) (observer patience : Nat) : Nat → List Cycle × Timeline
  | 0 => ([], t)
  | count + 1 =>
    let waiting (c : Console) : Bool := (c.machine.observers.unread observer).size > 0
    match t.waitUntil waiting (t.now + patience) with
    | (false, t) => ([], t)
    | (true, t) =>
      let (cycle, console) := t.console.receive observer
      let (rest, t) := { t with console }.collect observer patience count
      (cycle.toList ++ rest, t)

end Timeline

end Chip8VM
