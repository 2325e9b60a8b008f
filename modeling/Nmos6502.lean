import Nmos6502.Bus.Borrowed
import Nmos6502.Bus.Compact
import Nmos6502.Bus.Mapped
import Nmos6502.Bus.Recorded
import Nmos6502.Emulator
import Nmos6502.Event
import Nmos6502.Snapshot.Text
import Nmos6502.Proofs.Family
import Nmos6502.Proofs.Fetch
import Nmos6502.Proofs.Listing.Text
import Nmos6502.Proofs.Stutter
import Nmos6502.Proofs.Listing.Sweep
import Nmos6502.Proofs.Listing.Lossless
import Nmos6502.Proofs.Listing.Partition
import Nmos6502.Proofs.Listing.Compose
import Nmos6502.Proofs.Stack.Nesting
import Nmos6502.Proofs.Result
import Nmos6502.Proofs.Footprint
import Nmos6502.Proofs.Reads
import Nmos6502.Proofs.Traffic
import Nmos6502.Proofs.Ticks
import Nmos6502.Proofs.Steps
import Nmos6502.Proofs.Reachable
import Nmos6502.Proofs.Listing.Straight
import Nmos6502.Proofs.Alike.Instruction
import Nmos6502.Proofs.Alike.History
import Nmos6502.Proofs.Alike.Buses
import Nmos6502.Proofs.Alike.Cells
import Nmos6502.Proofs.Alike.Reset
import Nmos6502.Proofs.Alike.Modes
import Nmos6502.Proofs.LittleEndian
import Nmos6502.Proofs.MultiByte
import Nmos6502.Proofs.HexProgram
import Nmos6502.Proofs.Budget
import Nmos6502.Proofs.Mask
import Nmos6502.Proofs.Shift.Bytes
import Nmos6502.Proofs.Shift.Pass
import Nmos6502.Proofs.Shift.Code
import Nmos6502.Proofs.Loading
import Nmos6502.Proofs.Break
import Nmos6502.Proofs.Compare
import Nmos6502.Proofs.Program.BlockCopy
import Nmos6502.Proofs.Resolve
import Nmos6502.Proofs.Program.Multiply
import Nmos6502.Proofs.Stack.Moves
import Nmos6502.Proofs.Json.Token
import Nmos6502.Proofs.Json.Value
import Nmos6502.Proofs.Letters
import Nmos6502.Proofs.Snapshot
