import Chip8VM.Console.Clock
import Chip8VM.Machine.Operation

/-!
# The life of a console

Everything that can happen to a console, as data: ticks of either clock, and calls of those who hold
it, in any order.
-/

set_option autoImplicit false

namespace Chip8VM

/-- A call that a holder of the console, or of one of its observers, can make. -/
inductive Call where
  | boot (image : List UInt8)
  | bootFrom (source : Reader)
  | start
  | stop
  | close
  | isRunning
  | pause
  | resume
  | isPaused
  | frame
  | takeFrame
  | press (key : UInt8)
  | release (key : UInt8)
  | toneActive
  | subscribe (capacity : Nat)
  | inspect
  | poison
  | receive (observer : Nat)
  | unsubscribe (observer : Nat)
deriving DecidableEq, Repr

/-- Something that happens to a console. -/
inductive Event where
  | instructionTick
  | timerTick
  | call (c : Call)
deriving DecidableEq, Repr

namespace Call

/-- Turns the answer of a call into a reply. -/
def answer {α : Type} (f : α → Reply) (r : Except Error α × Console) : Reply × Console :=
  (.ofExcept f r.1, r.2)

/-- Carries a call out. -/
def apply (c : Console) : Call → Reply × Console
  | .boot image => answer (fun _ => .done) (c.boot image)
  | .bootFrom source => answer (fun _ => .done) (c.bootFrom source)
  | .start => answer (fun _ => .done) c.start
  | .stop => answer (fun _ => .done) c.stop
  | .close => (.done, c.close)
  | .isRunning => (.flag c.isRunning, c)
  | .pause => answer (fun _ => .done) c.pause
  | .resume => answer (fun _ => .done) c.resume
  | .isPaused => answer .flag (c.isPaused, c)
  | .frame => answer (fun f => .frame (some f)) (c.frame, c)
  | .takeFrame => answer .frame c.takeFrame
  | .press key => answer (fun _ => .done) (c.press key)
  | .release key => answer (fun _ => .done) (c.release key)
  | .toneActive => answer .flag (c.toneActive, c)
  | .subscribe capacity => answer .number (c.subscribe capacity)
  | .inspect => answer .state (c.inspect (·.state), c)
  | .poison => answer (fun _ => .done) c.poison
  | .receive observer => let (cycle, c) := c.receive observer; (.cycle cycle, c)
  | .unsubscribe observer => (.done, c.unsubscribe observer)

end Call

namespace Event

/-- Lets an event happen. A tick answers nothing. -/
def apply (c : Console) : Event → Reply × Console
  | .instructionTick => (.done, c.instructionTick)
  | .timerTick => (.done, c.timerTick)
  | .call k => k.apply c

/-- Lets events happen one after another; the replies are in their order. -/
def run (c : Console) : List Event → List Reply × Console
  | [] => ([], c)
  | e :: rest =>
    let (reply, c) := e.apply c
    let (replies, c) := run c rest
    (reply :: replies, c)

end Event

end Chip8VM
