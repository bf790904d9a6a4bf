import Chip8VM.Machine.Basic

/-!
# Operations on a machine

Everything that can be done with a machine and its observers, as data: `Operation.apply` carries one
out, `run` a whole history of them. A failed operation leaves the machine as it was.
-/

set_option autoImplicit false

namespace Chip8VM

/-- Something that can be done with a machine. -/
inductive Operation where
  | reset
  | load (image : List UInt8)
  | loadFrom (source : Reader)
  | step
  | tick
  | press (key : UInt8)
  | release (key : UInt8)
  | pause
  | resume
  | takeFrame
  | frame
  | isKeyDown (key : UInt8)
  | toneActive
  | isPaused
  | programSize
  | state
  | subscribe (capacity : Nat)
  | unsubscribe (observer : Nat)
  | receive (observer : Nat)
  | pending (observer : Nat)
deriving DecidableEq, Repr

/-- What an operation answers. -/
inductive Reply where
  | done
  | failed (e : Error)
  | stepped (s : Step)
  | flag (b : Bool)
  | number (n : Nat)
  | frame (f : Option Frame)
  | state (s : State)
  | cycle (c : Option Cycle)
deriving DecidableEq

namespace Reply

/-- The reply of an operation that may fail, `answer` being its reply if it does not. -/
def ofExcept {α : Type} (answer : α → Reply) : Except Error α → Reply
  | .ok a => answer a
  | .error e => .failed e

end Reply

namespace Operation

/-- The machine after something that may fail. -/
def settle (m : Machine) (u : Supply) (r : Except Error Machine) : After Reply :=
  ⟨.ofExcept (fun _ => .done) r, r.toOption.getD m, u⟩

/-- Carries an operation out. -/
def apply (m : Machine) (u : Supply) : Operation → After Reply
  | .reset => ⟨.done, m.reset, u⟩
  | .load image => settle m u (m.load image)
  | .loadFrom source => settle m u (m.loadFrom source)
  | .step => let a := m.step u; ⟨.stepped a.reply, a.machine, a.supply⟩
  | .tick => let (sounding, m') := m.tick; ⟨.flag sounding, m', u⟩
  | .press key => settle m u (m.press key)
  | .release key => settle m u (m.release key)
  | .pause => ⟨.done, m.pause, u⟩
  | .resume => ⟨.done, m.resume, u⟩
  | .takeFrame => let (f, m') := m.takeFrame; ⟨.frame f, m', u⟩
  | .frame => ⟨.frame (some m.state.frame), m, u⟩
  | .isKeyDown key => ⟨.flag (m.isKeyDown key), m, u⟩
  | .toneActive => ⟨.flag m.toneActive, m, u⟩
  | .isPaused => ⟨.flag m.paused, m, u⟩
  | .programSize => ⟨.number m.programSize, m, u⟩
  | .state => ⟨.state m.state, m, u⟩
  | .subscribe capacity => let (o, m') := m.subscribe capacity; ⟨.number o, m', u⟩
  | .unsubscribe observer => ⟨.done, m.unsubscribe observer, u⟩
  | .receive observer => let (c, m') := m.receive observer; ⟨.cycle c, m', u⟩
  | .pending observer => ⟨.number (m.observers.unread observer).size, m, u⟩

/-- Carries a history of operations out; the replies are in its order. -/
def run (m : Machine) (u : Supply) : List Operation → After (List Reply)
  | [] => ⟨[], m, u⟩
  | op :: rest =>
    let a := op.apply m u
    let b := run a.machine a.supply rest
    ⟨a.reply :: b.reply, b.machine, b.supply⟩

end Operation

end Chip8VM
