/-
A computer that is ready to use: a processor over 64 KiB of memory.

Front ends that only show things want no error types, so whatever fails here fails
with the message that a reader is shown, and a listing is a list of addresses with
their lines.
-/
import Nmos6502.Cpu
import Nmos6502.HexProgram
import Nmos6502.Listing

namespace Nmos6502

/-- A processor and its memory. -/
structure Emulator where
  cpu : Cpu Memory

namespace Emulator

/-- A computer just switched on, with nothing in memory. -/
def new : Emulator := ⟨.new .zero⟩

instance : Inhabited Emulator := ⟨new⟩

/-- Nothing, or the message of what went wrong. -/
def outcome : Option IllegalOpcode → Except String Unit
  | none => .ok ()
  | some e => .error e.message

/-- Loads a written program from `offset` on. -/
def loadProgram (e : Emulator) (program : String) (offset : Address) :
    Except String Unit × Emulator :=
  let (result, memory) := e.cpu.machine.bus.loadHex program offset
  let emulator : Emulator := ⟨e.cpu.mapBus fun _ => memory⟩
  match result with
  | .ok _ => (.ok (), emulator)
  | .error error => (.error error.message, emulator)

/-- Pulls the reset line. -/
def reset (e : Emulator) : Emulator := ⟨e.cpu.reset⟩

/-- Clocks the processor once. -/
def tick (e : Emulator) : Except String Unit × Emulator :=
  let (error, cpu) := e.cpu.tick
  (outcome error, ⟨cpu⟩)

/-- Clocks the processor until it has completed what it is doing. -/
def stepInstruction (e : Emulator) : Except String Unit × Emulator :=
  let (error, cpu) := e.cpu.stepInstruction
  (outcome error, ⟨cpu⟩)

/-- Pulls the maskable interrupt line. -/
def irq (e : Emulator) : Emulator := ⟨e.cpu.irq⟩

/-- Pulls the non-maskable interrupt line. -/
def nmi (e : Emulator) : Emulator := ⟨e.cpu.nmi⟩

/-- The byte in a memory cell. -/
def read (e : Emulator) (a : Address) : Byte := e.cpu.machine.bus.get a

/-- The computer after a byte has been put into a memory cell. -/
def write (e : Emulator) (a : Address) (v : Byte) : Emulator := ⟨e.cpu.write a v⟩

/-- The lines of a stretch of memory with their addresses. -/
def disassemble (e : Emulator) (start last : Address) : List (Address × String) :=
  (Nmos6502.disassemble e.cpu.machine.bus start last e.cpu.machine.x e.cpu.machine.y).entries.toList

end Emulator

end Nmos6502
