/-!
# Instructions

The 34 instructions of the machine with their operands: registers by number, a byte, an address of
twelve bits, or the height of a sprite.
-/

set_option autoImplicit false

namespace Chip8VM

/-- The number of one of the sixteen registers `V0` to `VF`. -/
abbrev Register := Fin 16

/-- The register that also takes carries, borrows and collisions. -/
def flagRegister : Register := 15

/-- An instruction with its operands. `VX`, `VY`, `I` are the registers it names. -/
inductive Instruction where
  /-- `00E0`: turn every pixel off. -/
  | clear
  /-- `00EE`: return from a subroutine. -/
  | ret
  /-- `1NNN`: go to an address. -/
  | jump (target : Fin 4096)
  /-- `2NNN`: call the subroutine at an address. -/
  | call (target : Fin 4096)
  /-- `3XNN`: skip if `VX` is the byte. -/
  | skipEqByte (x : Register) (byte : UInt8)
  /-- `4XNN`: skip if `VX` is not the byte. -/
  | skipNeByte (x : Register) (byte : UInt8)
  /-- `5XY0`: skip if `VX` is `VY`. -/
  | skipEq (x y : Register)
  /-- `6XNN`: put the byte into `VX`. -/
  | setByte (x : Register) (byte : UInt8)
  /-- `7XNN`: add the byte to `VX` without touching the flag. -/
  | addByte (x : Register) (byte : UInt8)
  /-- `8XY0`: copy `VY` into `VX`. -/
  | copy (x y : Register)
  /-- `8XY1`: bitwise or. -/
  | or (x y : Register)
  /-- `8XY2`: bitwise and. -/
  | and (x y : Register)
  /-- `8XY3`: bitwise exclusive or. -/
  | xor (x y : Register)
  /-- `8XY4`: add `VY` to `VX`; the flag is the carry. -/
  | add (x y : Register)
  /-- `8XY5`: subtract `VY` from `VX`; the flag says that nothing was borrowed. -/
  | sub (x y : Register)
  /-- `8XY6`: shift `VX` right by one; the flag is the bit shifted out. `Y` is not looked at. -/
  | shiftRight (x y : Register)
  /-- `8XY7`: put `VY` less `VX` into `VX`; the flag says that nothing was borrowed. -/
  | subFrom (x y : Register)
  /-- `8XYE`: shift `VX` left by one; the flag is the bit shifted out. `Y` is not looked at. -/
  | shiftLeft (x y : Register)
  /-- `9XY0`: skip if `VX` is not `VY`. -/
  | skipNe (x y : Register)
  /-- `ANNN`: put an address into `I`. -/
  | setIndex (target : Fin 4096)
  /-- `BNNN`: go to an address plus `V0`. -/
  | jumpPlus (target : Fin 4096)
  /-- `CXNN`: put a random byte, masked with the byte, into `VX`. -/
  | random (x : Register) (mask : UInt8)
  /-- `DXYN`: draw the sprite of `N` rows at `I` in column `VX` of row `VY`. -/
  | draw (x y : Register) (rows : Fin 16)
  /-- `EX9E`: skip if key `VX` is down. -/
  | skipDown (x : Register)
  /-- `EXA1`: skip if key `VX` is not down. -/
  | skipUp (x : Register)
  /-- `FX07`: read the delay timer into `VX`. -/
  | readDelay (x : Register)
  /-- `FX0A`: wait for a key and put its number into `VX`. -/
  | awaitKey (x : Register)
  /-- `FX15`: set the delay timer to `VX`. -/
  | setDelay (x : Register)
  /-- `FX18`: set the sound timer to `VX`. -/
  | setSound (x : Register)
  /-- `FX1E`: add `VX` to `I`; the flag says that the sum is past the last address. -/
  | addIndex (x : Register)
  /-- `FX29`: point `I` at the glyph of the digit in `VX`. -/
  | glyph (x : Register)
  /-- `FX33`: write the three decimal digits of `VX` at `I`. -/
  | decimal (x : Register)
  /-- `FX55`: write `V0` to `VX` at `I`, and move `I` past them. -/
  | store (x : Register)
  /-- `FX65`: read `V0` to `VX` from `I`, and move `I` past them. -/
  | load (x : Register)
deriving DecidableEq, Repr

namespace Instruction

/-- Whether the instruction takes a random byte. -/
def takesRandom : Instruction → Bool
  | .random _ _ => true
  | _ => false

end Instruction

end Chip8VM
