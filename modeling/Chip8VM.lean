import Chip8VM.Console.Condition
import Chip8VM.Console.Event
import Chip8VM.Instruction.Coverage
import Chip8VM.Machine.Transcript
import Chip8VM.Main
import Chip8VM.Proofs.CommandLine.KeyText
import Chip8VM.Proofs.Console.Boot
import Chip8VM.Proofs.Console.Lifecycle
import Chip8VM.Proofs.Console.Period
import Chip8VM.Proofs.Console.Poison
import Chip8VM.Proofs.Console.Screen
import Chip8VM.Proofs.Console.Warning
import Chip8VM.Proofs.Frame.Parity
import Chip8VM.Proofs.Machine.Arithmetic
import Chip8VM.Proofs.Machine.Chance
import Chip8VM.Proofs.Machine.Countdown
import Chip8VM.Proofs.Machine.Edge
import Chip8VM.Proofs.Machine.Flow
import Chip8VM.Proofs.Machine.Font
import Chip8VM.Proofs.Machine.Footprint
import Chip8VM.Proofs.Machine.Loading
import Chip8VM.Proofs.Machine.Looking
import Chip8VM.Proofs.Machine.Overlay
import Chip8VM.Proofs.Machine.Permanence
import Chip8VM.Proofs.Machine.Picture
import Chip8VM.Proofs.Machine.RoundTrip
import Chip8VM.Proofs.Machine.Shift
import Chip8VM.Proofs.Machine.Strokes
import Chip8VM.Proofs.Machine.Timers
import Chip8VM.Proofs.Machine.Writes
import Chip8VM.Proofs.Runner.Outcome
import Chip8VM.State.Summary
