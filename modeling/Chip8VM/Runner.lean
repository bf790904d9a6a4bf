import Chip8VM.CommandLine.Scan
import Chip8VM.Console.Timeline

/-!
# The runner

Runs a program on a muted console without a screen for a given time, polls it for frames as a screen
would, and answers the frame at the end.
-/

set_option autoImplicit false

namespace Chip8VM.Runner

open CommandLine (Arguments)

/-- Why a run came to nothing. -/
inductive Failure where
  /-- The program file cannot be opened. The reason is not kept: whatever it is, the file counts as
  missing. -/
  | noSuchFile
  | error (e : Error)
deriving DecidableEq, Repr

/-- The text of a failure. -/
def Failure.message : Failure → String
  | .noSuchFile => "No such file or directory (os error 2)"
  | .error e => e.message

/-- Milliseconds between two polls. -/
def pollInterval : Nat := 16

/-- Completed instructions that are held for the runner between two polls. -/
def cycleCapacity : Nat := 4096

/-- A run so far. -/
structure Progress where
  timeline : Timeline
  /-- The number of the runner as an observer. -/
  observer : Nat
  /-- Completed instructions that were counted. -/
  executed : Nat
  /-- The frames that the polls found, oldest first. -/
  frames : List Frame

/-- What came of a run. -/
structure Outcome where
  /-- The frames that the polls found, oldest first. -/
  frames : List Frame
  /-- Completed instructions that were counted. -/
  executed : Nat
  /-- The console at the end, its clocks stopped. -/
  console : Console
  /-- The frame at the end. -/
  final : Frame

/-- A console with the program loaded and the keys held down. -/
def prepare (args : Arguments) (source : Reader) (supply : Supply) : Except Error Console := do
  let (booted, c) := (Console.new args.config .silent supply).bootFrom source
  booted
  args.hold.foldlM (fun c key => do
    let (pressed, c) := c.press key
    pressed
    return c) c

/-- Subscribes to the cycles and starts the clocks. -/
def begin (c : Console) : Except Error Progress := do
  let (observer, c) := c.subscribe cycleCapacity
  let (started, t) := (Timeline.new c).start
  started
  return ⟨t, ← observer, 0, []⟩

/-- Counts the cycles that have come in. -/
def Progress.count (p : Progress) : Progress :=
  let (cycles, console) := p.timeline.console.drain p.observer
  { p with timeline := { p.timeline with console }, executed := p.executed + cycles.size }

/-- Takes the frame if it changed. -/
def Progress.poll (p : Progress) : Except Error Progress := do
  let p := p.count
  let (frame, console) := p.timeline.console.takeFrame
  return { p with timeline := { p.timeline with console }, frames := p.frames ++ (← frame).toList }

/-- Lets milliseconds pass, polling all the while. -/
def Progress.runFor (p : Progress) (millis : Nat) : Except Error Progress :=
  if h : millis = 0 then .ok p
  else do
    let pause := min pollInterval millis
    let p ← { p with timeline := p.timeline.sleep pause }.poll
    p.runFor (millis - pause)
termination_by millis
decreasing_by unfold pollInterval; omega

/-- Stops the clocks. -/
def Progress.finish (p : Progress) : Except Error Outcome := do
  let (stopped, console) := p.timeline.console.stop
  stopped
  let p := { p with timeline := { p.timeline with console } }.count
  return ⟨p.frames, p.executed, p.timeline.console, ← p.timeline.console.frame⟩

/-- Runs a program, `source` being its file if it can be opened. -/
def run (args : Arguments) (source : Option Reader) (supply : Supply) : Except Failure Outcome :=
  match source with
  | none => .error .noSuchFile
  | some source => Except.mapError .error do
    let p ← begin (← prepare args source supply)
    (← p.runFor args.millis.toNat).finish

end Chip8VM.Runner
