import Chip8VM.Frame.Text
import Chip8VM.Runner

/-!
# The command line program

Reads the arguments and the program file, runs the program, and prints the frames.
-/

set_option autoImplicit false

namespace Chip8VM.Program

/-- The name and version that the program gives for itself. -/
def version : String := "chip8 0.1.0"

/-- How the program is called. -/
def usage : String :=
  "Runs a Chip-8 ROM headlessly and prints the final frame\n\n" ++
  "Usage: chip8 [OPTIONS] <ROM>\n\n" ++
  "Arguments:\n  <ROM>              Path to ROM file\n\n" ++
  "Options:\n" ++
  "      --hz <HZ>          Instructions per second\n" ++
  "      --millis <MILLIS>  How long to run for, in milliseconds\n" ++
  "      --hold <HOLD>      Keys (0-F) held down for the whole run\n" ++
  "      --toroidal         Wrap sprites around columns and rows independently\n" ++
  "      --every-frame      Print every frame the program draws, not just the last one\n" ++
  "  -h, --help             Print help\n" ++
  "  -V, --version          Print version\n"

/-- The text for arguments that are not carried out. -/
def explain : CommandLine.Usage → String
  | .unknownArgument => "error: unexpected argument found"
  | .invalidValue => "error: a value is required but none was supplied"
  | .valueValidation => "error: invalid value"
  | .missingRequired => "error: the following required arguments were not provided: <ROM>"
  | .conflict => "error: an argument cannot be used multiple times"
  | .tooManyValues => "error: unexpected value for a flag"
  | .help => usage
  | .version => version

/-- Reads an open file to its end. If that cannot be done, the reader fails as the file does. -/
def readFile (file : IO.FS.Handle) : IO Reader := do
  try
    return .ofBytes (← file.readBinToEnd).toList
  catch e =>
    return [.failed (toString e)]

/-- Opens the program file and reads it. There is no reader if the file cannot be opened, whatever
the reason. -/
def openFile (path : String) : IO (Option Reader) := do
  try
    return some (← readFile (← IO.FS.Handle.mk path .read))
  catch _ =>
    return none

/-- A number that is different in each run. -/
def seed : IO UInt64 := do
  return (← IO.getRandomBytes 8).data.foldl (fun n b => 256 * n + b.toUInt64) 0

/-- Runs a program and prints what it drew. Time is that of the console: the program does not wait
for it to pass. A failure is printed as its message, the text for a reader, and not as the value
that stands for it. -/
def execute (args : CommandLine.Arguments) : IO UInt32 := do
  match Runner.run args (← openFile args.program) (.ofSeed (← seed)) with
  | .ok outcome =>
    if args.everyFrame then
      for frame in outcome.frames do IO.println frame.text
    IO.print outcome.final.text
    return 0
  | .error failure =>
    IO.eprintln s!"Error: {failure.message}"
    return 1

end Chip8VM.Program

/-- Carries the command line out. -/
def main (argv : List String) : IO UInt32 := do
  match Chip8VM.CommandLine.parse argv with
  | .ok args => Chip8VM.Program.execute args
  | .error .help => IO.print Chip8VM.Program.usage; return 0
  | .error .version => IO.println Chip8VM.Program.version; return 0
  | .error usage => IO.eprintln (Chip8VM.Program.explain usage); return 2
