import Chip8VM.Word

/-!
# Observers

An observer is told of the instructions that a machine completes. It holds those that it has not
read yet, up to its capacity; while it is full the newest ones pass it by, so it never holds the
machine up. An observer that leaves is taken off the list at the next notice.
-/

set_option autoImplicit false

namespace Chip8VM

/-- A completed instruction: its word and the address it stood at. The time that it took is not
kept: it is wall time, different in every run, and nothing in the machine looks at it. -/
structure Cycle where
  word : Word
  pc : Word
deriving DecidableEq, Repr

/-- One that is told of completed instructions. -/
structure Observer where
  /-- Its number; observers are counted from 0. -/
  id : Nat
  /-- The most cycles it holds unread. -/
  capacity : Nat
  /-- The cycles it has not read yet, oldest first. -/
  unread : Array Cycle
  /-- Whether it has left. -/
  gone : Bool
deriving DecidableEq, Repr

/-- Tells an observer of a cycle, which is lost on it if it is full. -/
def Observer.offer (o : Observer) (c : Cycle) : Observer :=
  if o.unread.size < o.capacity then { o with unread := o.unread.push c } else o

/-- The observers of a machine. -/
structure Observers where
  /-- Those on the list, in the order in which they came. -/
  present : List Observer
  /-- How many have come so far. -/
  joined : Nat
deriving DecidableEq, Repr

namespace Observers

/-- Nobody. -/
def empty : Observers := ⟨[], 0⟩

/-- Puts a new observer on the list. Its number is how many came before. -/
def join (os : Observers) (capacity : Nat) : Observers :=
  ⟨os.present ++ [⟨os.joined, capacity, #[], false⟩], os.joined + 1⟩

/-- The observer with a number. -/
def find? (os : Observers) (id : Nat) : Option Observer := os.present.find? (·.id == id)

/-- Changes the observer with a number. -/
def update (os : Observers) (id : Nat) (f : Observer → Observer) : Observers :=
  { os with present := os.present.map fun o => if o.id == id then f o else o }

/-- Lets an observer leave. -/
def leave (os : Observers) (id : Nat) : Observers :=
  os.update id fun o => { o with gone := true }

/-- Tells everyone still there of a cycle, and takes those who left off the list. -/
def notify (os : Observers) (c : Cycle) : Observers :=
  { os with present := (os.present.filter (!·.gone)).map (·.offer c) }

/-- The cycles that an observer has not read yet. -/
def unread (os : Observers) (id : Nat) : Array Cycle := ((os.find? id).map (·.unread)).getD #[]

/-- Reads the oldest cycle that an observer has not read yet. -/
def receive (os : Observers) (id : Nat) : Option Cycle × Observers :=
  match (os.unread id)[0]? with
  | some c => (some c, os.update id fun o => { o with unread := o.unread.extract 1 o.unread.size })
  | none => (none, os)

/-- Reads all cycles that an observer has not read yet. -/
def drain (os : Observers) (id : Nat) : Array Cycle × Observers :=
  (os.unread id, os.update id fun o => { o with unread := #[] })

end Observers

end Chip8VM
