/-
What each instruction does to the machine.

The 56 instructions fall into a dozen families, and each family is one function that
takes what distinguishes its members: the register that is loaded, the operation of
the arithmetic unit, the flag that a branch looks at.  `execute` is then a table from
instructions to families.  Every family that has an operand takes it exactly once, so
the program counter ends behind the instruction whatever the operand turned out to be.
-/
import Nmos6502.Arithmetic
import Nmos6502.IllegalOpcode
import Nmos6502.Machine
import Nmos6502.Opcode

namespace Nmos6502

namespace Machine

variable {σ : Type} [Bus σ]

/-! ### Moving bytes -/

/-- Loads a register from the operand. -/
def load (m : Machine σ) (r : Register) (mode : AddressingMode) : Machine σ :=
  let (operand, m) := m.takeOperand mode
  m.setResult r (m.operandValue operand)

/-- Stores a register at the operand's cell. -/
def store (m : Machine σ) (r : Register) (mode : AddressingMode) : Machine σ :=
  let (operand, m) := m.takeOperand mode
  m.write operand.effectiveAddress (m.get r)

/-- Copies one register to another and lets the byte decide zero and negative. -/
def transfer (m : Machine σ) (source target : Register) : Machine σ :=
  m.setResult target (m.get source)

/-! ### The arithmetic unit -/

/-- Puts the sum that an operation makes of accumulator, operand and carry into the accumulator. -/
def accumulate (m : Machine σ) (sum : Byte → Byte → Bool → ByteSum) (mode : AddressingMode) :
    Machine σ :=
  let (operand, m) := m.takeOperand mode
  let s := sum m.a (m.operandValue operand) m.status.carry
  let m := m.setResult .a s.value
  { m with status := { m.status with carry := s.carry, overflow := s.overflow } }

/-- Combines accumulator and operand bit by bit. -/
def combine (m : Machine σ) (op : Byte → Byte → Byte) (mode : AddressingMode) : Machine σ :=
  let (operand, m) := m.takeOperand mode
  m.setResult .a (op m.a (m.operandValue operand))

/-- Compares a register with the operand and keeps both. -/
def compareWith (m : Machine σ) (r : Register) (mode : AddressingMode) : Machine σ :=
  let (operand, m) := m.takeOperand mode
  let c := compareBytes (m.get r) (m.operandValue operand)
  let m := m.withZN c.difference
  { m with status := { m.status with carry := c.carry } }

/--
Tests the operand: zero says whether it shares a bit with the accumulator, negative
and overflow are its own two highest bits.
-/
def bitTest (m : Machine σ) (mode : AddressingMode) : Machine σ :=
  let (operand, m) := m.takeOperand mode
  let v := m.operandValue operand
  { m with status := { m.status with
      zero := m.a &&& v == 0, negative := signBit v, overflow := v &&& 0x40 != 0 } }

/-- Shifts the operand in its place; the operation sees the carry and decides the new one. -/
def shift (m : Machine σ) (op : Byte → Bool → Shifted) (mode : AddressingMode) : Machine σ :=
  let (operand, m) := m.takeOperand mode
  let s := op (m.operandValue operand) m.status.carry
  let m := m.putOperand s.value operand
  let m := m.withZN s.value
  { m with status := { m.status with carry := s.carry } }

/-- Adds a byte to the operand in its place. -/
def adjust (m : Machine σ) (delta : Byte) (mode : AddressingMode) : Machine σ :=
  let (operand, m) := m.takeOperand mode
  let v := m.operandValue operand + delta
  (m.putOperand v operand).withZN v

/-- Adds a byte to a register. -/
def adjustRegister (m : Machine σ) (r : Register) (delta : Byte) : Machine σ :=
  m.setResult r (m.get r + delta)

/-- Gives one flag a value. -/
def setFlag (m : Machine σ) (f : Flag) (on : Bool) : Machine σ :=
  { m with status := m.status.set f on }

/-! ### The stack -/

/-- Pushes the status as a program's own copy. -/
def pushStatus (m : Machine σ) : Machine σ := m.push m.status.pushedByProgram

/-- Pulls the accumulator. -/
def pullAccumulator (m : Machine σ) : Machine σ :=
  let (v, m) := m.pull
  m.setResult .a v

/-- Pulls the status. -/
def pullStatus (m : Machine σ) : Machine σ :=
  let (v, m) := m.pull
  { m with status := .ofPulled v }

/-! ### Control -/

/-- Moves the program counter by the operand's distance if the flag has the value `on`. -/
def branch (m : Machine σ) (f : Flag) (on : Bool) (mode : AddressingMode) : Machine σ :=
  let (operand, m) := m.takeOperand mode
  match operand with
  | .offset distance => if m.status.get f == on then { m with pc := m.pc + distance } else m
  | _ => m

/-- Goes to the operand. -/
def jump (m : Machine σ) (mode : AddressingMode) : Machine σ :=
  let (operand, m) := m.takeOperand mode
  { m with pc := operand.effectiveAddress }

/-- Goes to the operand and leaves the address of the instruction's last byte on the stack. -/
def call (m : Machine σ) (mode : AddressingMode) : Machine σ :=
  let (operand, m) := m.takeOperand mode
  let m := m.pushWord (m.pc - 1)
  { m with pc := operand.effectiveAddress }

/-- Goes behind the address that a call left on the stack. -/
def returnFromCall (m : Machine σ) : Machine σ :=
  let (w, m) := m.pullWord
  { m with pc := w + 1 }

/--
Interrupts the program from within.  The byte behind the opcode is skipped on return,
and the pushed copy of the status shows where the interrupt came from.
-/
def breakProgram (m : Machine σ) : Machine σ :=
  let m := { m with status := { m.status with interruptDisable := true } }
  let m := m.pushWord (m.pc + 1)
  m.pushStatus.goThrough irqVector

/-- Takes up the program that an interrupt left. -/
def returnFromInterrupt (m : Machine σ) : Machine σ :=
  let m := m.pullStatus
  let (w, m) := m.pullWord
  { m with pc := w }

/-! ### The instruction set -/

/-- The machine after an instruction whose opcode has just been fetched. -/
def execute (m : Machine σ) (instruction : Instruction) (mode : AddressingMode) : Machine σ :=
  match instruction with
  | .lda => m.load .a mode
  | .ldx => m.load .x mode
  | .ldy => m.load .y mode
  | .sta => m.store .a mode
  | .stx => m.store .x mode
  | .sty => m.store .y mode
  | .tax => m.transfer .a .x
  | .tay => m.transfer .a .y
  | .txa => m.transfer .x .a
  | .tya => m.transfer .y .a
  | .tsx => m.transfer .sp .x
  | .txs => m.set .sp m.x
  | .adc => m.accumulate addWithCarry mode
  | .sbc => m.accumulate subtractWithBorrow mode
  | .and => m.combine (· &&& ·) mode
  | .ora => m.combine (· ||| ·) mode
  | .eor => m.combine (· ^^^ ·) mode
  | .cmp => m.compareWith .a mode
  | .cpx => m.compareWith .x mode
  | .cpy => m.compareWith .y mode
  | .bit => m.bitTest mode
  | .asl => m.shift (fun v _ => shiftLeft v false) mode
  | .lsr => m.shift (fun v _ => shiftRight v false) mode
  | .rol => m.shift shiftLeft mode
  | .ror => m.shift shiftRight mode
  | .inc => m.adjust 1 mode
  | .dec => m.adjust (-1) mode
  | .inx => m.adjustRegister .x 1
  | .iny => m.adjustRegister .y 1
  | .dex => m.adjustRegister .x (-1)
  | .dey => m.adjustRegister .y (-1)
  | .clc => m.setFlag .carry false
  | .sec => m.setFlag .carry true
  | .cli => m.setFlag .interruptDisable false
  | .sei => m.setFlag .interruptDisable true
  | .cld => m.setFlag .decimal false
  | .sed => m.setFlag .decimal true
  | .clv => m.setFlag .overflow false
  | .pha => m.push m.a
  | .php => m.pushStatus
  | .pla => m.pullAccumulator
  | .plp => m.pullStatus
  | .bcc => m.branch .carry false mode
  | .bcs => m.branch .carry true mode
  | .bne => m.branch .zero false mode
  | .beq => m.branch .zero true mode
  | .bpl => m.branch .negative false mode
  | .bmi => m.branch .negative true mode
  | .bvc => m.branch .overflow false mode
  | .bvs => m.branch .overflow true mode
  | .jmp => m.jump mode
  | .jsr => m.call mode
  | .rts => m.returnFromCall
  | .brk => m.breakProgram
  | .rti => m.returnFromInterrupt
  | .nop => m

/--
Fetches an opcode and executes its instruction, giving the base cost in cycles.  A
byte that names no instruction is stepped over and reported.
-/
def step (m : Machine σ) : Except IllegalOpcode Byte × Machine σ :=
  let address := m.pc
  let opcode := Bus.read m.bus address
  let m := { m with pc := address + 1 }
  match Opcode.lookup opcode with
  | some entry => (.ok entry.cycles, m.execute entry.instruction entry.mode)
  | none => (.error ⟨opcode, address⟩, m)

theorem step_of_defined {m : Machine σ} {entry : Opcode}
    (h : Opcode.lookup (Bus.read m.bus m.pc) = some entry) :
    m.step =
      (.ok entry.cycles, { m with pc := m.pc + 1 }.execute entry.instruction entry.mode) := by
  simp only [step, h]

theorem step_of_undefined {m : Machine σ} (h : Opcode.lookup (Bus.read m.bus m.pc) = none) :
    m.step = (.error ⟨Bus.read m.bus m.pc, m.pc⟩, { m with pc := m.pc + 1 }) := by
  simp only [step, h]

end Machine

end Nmos6502
