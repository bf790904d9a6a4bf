import Chip8VM.Console.Basic

/-!
# The ticks of the clocks

While the thread of the clocks ticks, each tick of the instruction clock takes a step and each tick
of the timer clock counts the timers down and tells the buzzer of a change. A step that fails is
logged, but not again while the program stays stuck at the same place. A thread that finds the
machine poisoned logs that and ends.
-/

set_option autoImplicit false

namespace Chip8VM.Console

/-- Whether ticks are still carried out. -/
def isTicking (c : Console) : Bool := c.clock.any (·.health = .ticking)

/-- The thread logs that it cannot have the machine, and ends. -/
def giveUp (c : Console) (t : ClockThread) : Console :=
  (c.alarm .error "machine state poisoned; stopping clocks").endThread t

/-- Notes how a step went that was taken at counter `pc`. -/
def noteStep (c : Console) (t : ClockThread) (pc : Word) : Step → Console
  | .failed f =>
    let c := if t.faultedAt = some pc then c else c.alarm .warn f.message
    { c with clock := some { t with faultedAt := some pc } }
  | .trapped _ => { c with poisoned := true, clock := some { t with health := .died } }
  | _ => { c with clock := some { t with faultedAt := none } }

/-- One tick of the instruction clock in a thread that ticks. -/
def tickInstruction (c : Console) (t : ClockThread) : Console :=
  match c.lock with
  | .error _ => c.giveUp t
  | .ok m =>
    let a := m.step c.supply
    { c with machine := a.machine, supply := a.supply }.noteStep t m.state.pc a.reply

/-- Notes whether a tick of the timers sounded, and tells the buzzer of a change. A buzzer that
breaks down takes the thread with it. -/
def noteTone (c : Console) (t : ClockThread) (sounding : Bool) : Console :=
  if sounding = t.sounding then { c with clock := some t }
  else
    let (broke, c) := c.tell sounding
    if broke then { c with clock := some { t with health := .died } }
    else { c with clock := some { t with sounding } }

/-- One tick of the timer clock in a thread that ticks. -/
def tickTimer (c : Console) (t : ClockThread) : Console :=
  match c.lock with
  | .error _ => c.giveUp t
  | .ok m =>
    let (sounding, machine) := m.tick
    { c with machine }.noteTone t sounding

/-- Carries out a tick if the thread of the clocks ticks. -/
def whileTicking (c : Console) (tick : Console → ClockThread → Console) : Console :=
  match c.clock with
  | some t => if t.health = .ticking then tick c t else c
  | none => c

/-- One tick of the instruction clock. -/
def instructionTick (c : Console) : Console := c.whileTicking tickInstruction

/-- One tick of the timer clock. -/
def timerTick (c : Console) : Console := c.whileTicking tickTimer

end Chip8VM.Console
