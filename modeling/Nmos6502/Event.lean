/-
What can happen to a processor, as data.

Everything that a host can do to a processor is an event, and every event has an
answer.  A history is a list of events; replaying it gives the answers in order and
the processor that is left.  Statements about "any sequence of operations" are
statements about histories.
-/
import Nmos6502.Cpu
import Nmos6502.Listing

namespace Nmos6502

/-- One thing that a host does. -/
inductive Event
  /-- Clocks the processor once. -/
  | tick
  /-- Clocks it until an instruction or a sequence in progress is complete. -/
  | step
  /-- Clocks it a number of times, unless an instruction fails before. -/
  | run (budget : UInt64)
  /-- Pulls the maskable interrupt line. -/
  | irq
  /-- Pulls the non-maskable interrupt line. -/
  | nmi
  /-- Pulls the reset line. -/
  | reset
  /-- Puts a byte into a register. -/
  | setRegister (r : Register) (v : Byte)
  /-- Moves the program counter. -/
  | setPc (a : Address)
  /-- Replaces the status. -/
  | setStatus (b : Byte)
  /-- Gives the masked flags one value. -/
  | assignFlags (mask : Status) (on : Bool)
  /-- Sends a byte over the bus. -/
  | write (a : Address) (v : Byte)
  /-- Asks for a listing. -/
  | disassemble (start last : Address)
  deriving DecidableEq, Repr

/-- What a host gets back. -/
inductive Answer
  /-- The event happened. -/
  | done
  /-- The processor fetched a byte that names no instruction. -/
  | failed (e : IllegalOpcode)
  /-- The listing asked for. -/
  | listing (l : Listing)
  deriving DecidableEq, Repr

namespace Answer

/-- The answer to something that may have failed. -/
def ofError : Option IllegalOpcode → Answer
  | none => done
  | some e => failed e

end Answer

namespace Cpu

variable {σ : Type} [Bus σ]

/--
The listing of a stretch of memory under the processor's own index registers, so that
operands resolve to what execution would use now.
-/
def disassemble (c : Cpu σ) (start last : Address) : Listing :=
  Nmos6502.disassemble c.machine.bus start last c.machine.x c.machine.y

/-- The answer to an event and the processor after it. -/
def handle (c : Cpu σ) : Event → Answer × Cpu σ
  | .tick => c.tick.map Answer.ofError id
  | .step => c.stepInstruction.map Answer.ofError id
  | .run budget => (c.runForTicks budget.toNat).map Answer.ofError id
  | .irq => (.done, c.irq)
  | .nmi => (.done, c.nmi)
  | .reset => (.done, c.reset)
  | .setRegister r v => (.done, c.setRegister r v)
  | .setPc a => (.done, c.setPc a)
  | .setStatus b => (.done, c.setStatus b)
  | .assignFlags mask on => (.done, c.assignFlags mask on)
  | .write a v => (.done, c.write a v)
  | .disassemble start last => (.listing (c.disassemble start last), c)

/-- The answers to a history and the processor after it. -/
def replay (c : Cpu σ) : List Event → List Answer × Cpu σ
  | [] => ([], c)
  | e :: es =>
    let (answer, c) := c.handle e
    let (answers, c) := c.replay es
    (answer :: answers, c)

end Cpu

end Nmos6502
