import Chip8VM.CommandLine.Numeral
import Chip8VM.Text.Hex

/-!
# Keys on the command line

A key is given by its number in hexadecimal.
-/

set_option autoImplicit false

namespace Chip8VM.CommandLine

/-- Reads the number of a key: hexadecimal digits behind an optional `+`, of a value below 16. -/
def parseKey? (text : String) : Option UInt8 := do
  let n ← Numeral.value? 16 Hex.digit? (Numeral.dropPlus text.toList)
  if n < 16 then some (UInt8.ofNat n) else none

/-- The message for a text that names no key. -/
def keyMessage (text : String) : String := "\x60" ++ text ++ "\x60 isn't a key; expected 0-F"

end Chip8VM.CommandLine
