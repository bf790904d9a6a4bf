/-!
# Log records

A record is a text with a level.
-/

set_option autoImplicit false

namespace Chip8VM.Log

/-- How much a record matters, from the least to the most. -/
inductive Level where
  | trace
  | debug
  | info
  | warn
  | error
deriving DecidableEq, Repr

/-- A text with its level. -/
structure Record where
  level : Level
  text : String
deriving DecidableEq, Repr

/-- The name of a level. -/
def Level.name : Level → String
  | .trace => "TRACE"
  | .debug => "DEBUG"
  | .info => "INFO"
  | .warn => "WARN"
  | .error => "ERROR"

/-- A record as one line. -/
def Record.line (r : Record) : String := r.level.name ++ " " ++ r.text

end Chip8VM.Log
