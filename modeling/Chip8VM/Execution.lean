import Chip8VM.Sprite
import Chip8VM.State.Basic

/-!
# Executing an instruction

`Instruction.execute` says what each instruction makes of a state. An instruction either completes
with a new state or is refused, and then the state stays as it was: it waits for a key, it is a
fault of the program, or it traps.
-/

set_option autoImplicit false

namespace Chip8VM

/-- Why an instruction did not complete. -/
inductive Refusal where
  /-- It waits for a key and is to be tried again. -/
  | awaitingKey
  /-- The program is stuck on it. -/
  | fault (f : Fault)
  /-- The machine cannot go on. -/
  | trap (t : Trap)
deriving DecidableEq, Repr

/-- The word of a number, if a word holds it. -/
def exactWord (n : Nat) : Except Refusal Word :=
  if n < 65536 then .ok (UInt16.ofNat n) else .error (.trap (.tooLarge n))

namespace State

/-! ## The counter -/

/-- Goes to an address. -/
def goto (s : State) (address : Nat) : Except Refusal State := do
  let pc ← exactWord address
  return { s with pc }

/-- Goes on to the instruction behind this one. -/
def next (s : State) : Except Refusal State := s.goto (s.pc.toNat + 2)

/-- Goes on, leaving one more instruction out if the condition holds. -/
def skipIf (s : State) (condition : Bool) : Except Refusal State :=
  s.goto (s.pc.toNat + if condition then 4 else 2)

/-! ## Registers -/

/-- Puts a byte into a register. -/
def setV (s : State) (x : Register) (byte : UInt8) : State := { s with v := s.v.set x byte }

/-- Puts a result into a register and then the flag into `VF`, so that the flag wins there. -/
def setFlagged (s : State) (x : Register) (result : UInt8) (flag : Bool) : State :=
  (s.setV x result).setV flagRegister flag.toUInt8

/-- The registers with the first ones replaced by the given bytes. -/
def withFirst {count : Nat} (v : Vector UInt8 16) (bytes : Vector UInt8 count) : Vector UInt8 16 :=
  Vector.ofFn fun k => if h : k.val < count then bytes[k.val] else v[k]

/-- The decimal digits of a byte, hundreds first. -/
def digits (byte : UInt8) : List UInt8 := [byte / 100, byte / 10 % 10, byte % 10]

/-! ## Calls -/

/-- Puts the address of a call on the stack and goes to the subroutine. -/
def enter (s : State) (target : Nat) : Except Refusal State :=
  if s.calls.depth = 16 then .error (.fault (.stackOverflow s.pc))
  else do
    let calls ← (s.calls.push s.pc).mapError .trap
    { s with calls }.goto target

/-- Takes the address of the latest call off the stack and goes on behind it. -/
def leave (s : State) : Except Refusal State :=
  if s.calls.depth = 0 then .error (.fault (.stackUnderflow s.pc))
  else do
    let (caller, calls) ← s.calls.pop.mapError .trap
    { s with calls }.goto (caller.toNat + 2)

/-! ## Memory and the screen -/

/-- Draws the sprite of the given height at `I`, its corner in column `x` of row `y`. -/
def drawSprite (s : State) (wrap : Wrap) (x y : UInt8) (height : Nat) : Except Refusal State := do
  let sprite ← (s.memory.read s.index.toNat height).mapError .fault
  let (hit, frame) :=
    s.frame.toggleAll (Sprite.cells wrap x.toNat y.toNat sprite.toList)
  ({ s with frame, drawn := true }.setV flagRegister hit.toUInt8).next

/-- Writes bytes at `I`. -/
def writeAtIndex (s : State) (bytes : List UInt8) : Except Refusal State := do
  let memory ← (s.memory.write s.index.toNat bytes).mapError .fault
  return { s with memory }

/-- Moves `I` on, around the end of its 16 bits. -/
def moveIndex (s : State) (count : Nat) : State :=
  { s with index := UInt16.ofNat (s.index.toNat + count) }

end State

/-! ## Instructions -/

namespace Instruction

/-- What an instruction makes of a state, `byte` being the random byte it may take. -/
def execute (wrap : Wrap) (byte : UInt8) (s : State) : Instruction → Except Refusal State
  | .clear => { s with frame := .blank, drawn := true }.next
  | .ret => s.leave
  | .jump target => s.goto target
  | .call target => s.enter target
  | .skipEqByte x b => s.skipIf (s.v[x] == b)
  | .skipNeByte x b => s.skipIf (s.v[x] != b)
  | .skipEq x y => s.skipIf (s.v[x] == s.v[y])
  | .setByte x b => (s.setV x b).next
  | .addByte x b => (s.setV x (s.v[x] + b)).next
  | .copy x y => (s.setV x s.v[y]).next
  | .or x y => (s.setV x (s.v[x] ||| s.v[y])).next
  | .and x y => (s.setV x (s.v[x] &&& s.v[y])).next
  | .xor x y => (s.setV x (s.v[x] ^^^ s.v[y])).next
  | .add x y =>
    (s.setFlagged x (s.v[x] + s.v[y]) (decide (s.v[x].toNat + s.v[y].toNat > 255))).next
  | .sub x y => (s.setFlagged x (s.v[x] - s.v[y]) (decide (s.v[y] ≤ s.v[x]))).next
  | .shiftRight x _ => (s.setFlagged x (s.v[x] >>> 1) (s.v[x].toNat.testBit 0)).next
  | .subFrom x y => (s.setFlagged x (s.v[y] - s.v[x]) (decide (s.v[x] ≤ s.v[y]))).next
  | .shiftLeft x _ => (s.setFlagged x (s.v[x] <<< 1) (s.v[x].toNat.testBit 7)).next
  | .skipNe x y => s.skipIf (s.v[x] != s.v[y])
  | .setIndex target => { s with index := UInt16.ofNat target.val }.next
  | .jumpPlus target => s.goto (s.v0.toNat + target.val)
  | .random x mask => (s.setV x (byte &&& mask)).next
  | .draw x y height => s.drawSprite wrap s.v[x] s.v[y] height
  | .skipDown x => s.skipIf (s.keys.isDown s.v[x].toNat)
  | .skipUp x => s.skipIf (!s.keys.isDown s.v[x].toNat)
  | .readDelay x => (s.setV x s.delay).next
  | .awaitKey x =>
    match s.keys.greatest? with
    | some key => (s.setV x (UInt8.ofNat key.val)).next
    | none => .error .awaitingKey
  | .setDelay x => { s with delay := s.v[x] }.next
  | .setSound x => { s with sound := s.v[x] }.next
  | .addIndex x =>
    ((s.moveIndex s.v[x].toNat).setV flagRegister
      (decide (s.index.toNat + s.v[x].toNat > Memory.last)).toUInt8).next
  | .glyph x => do
    let index ← exactWord (s.v[x].toNat * glyphSize)
    { s with index }.next
  | .decimal x => do
    (← s.writeAtIndex (State.digits s.v[x])).next
  | .store x => do
    let count := x.val + 1
    ((← s.writeAtIndex (s.v.toList.take count)).moveIndex count).next
  | .load x => do
    let count := x.val + 1
    let bytes ← (s.memory.read s.index.toNat count).mapError .fault
    ({ s with v := State.withFirst s.v bytes }.moveIndex count).next

end Instruction

end Chip8VM
