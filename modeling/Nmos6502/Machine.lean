/-
The processor's registers, the bus it drives and the stack it keeps there.

A machine has no notion of time: it is what a program can see.  The clock that doles
instructions out over ticks is wrapped around it in `Cpu`.

The stack is a ring of 256 cells in page one.  The stack pointer is a byte, so it
wraps within the page by itself: a push writes and then steps down, a pull steps up
and then reads.
-/
import Nmos6502.Addressing
import Nmos6502.Status

namespace Nmos6502

/-- The page in which the stack lives. -/
def stackPage : Address := 0x0100

/-- Where the address of the handler for non-maskable interrupts is stored. -/
def nmiVector : Address := 0xFFFA

/-- Where the address at which a program starts is stored. -/
def resetVector : Address := 0xFFFC

/-- Where the address of the handler for maskable interrupts and `BRK` is stored. -/
def irqVector : Address := 0xFFFE

/-- The eight-bit registers. -/
inductive Register
  | a
  | x
  | y
  /-- The stack pointer. -/
  | sp
  deriving DecidableEq, Repr

/-- The registers of the processor and the bus it is wired to. -/
structure Machine (σ : Type) where
  /-- The accumulator. -/
  a : Byte
  /-- The first index register. -/
  x : Byte
  /-- The second index register. -/
  y : Byte
  /-- The stack pointer, an offset into the stack page. -/
  sp : Byte
  /-- The address of the next byte of the program. -/
  pc : Address
  /-- The status bits. -/
  status : Status
  /-- Everything behind the address lines. -/
  bus : σ

namespace Machine

variable {σ : Type}

/-- A machine before its first reset, all registers zero. -/
def blank (bus : σ) : Machine σ :=
  { a := 0, x := 0, y := 0, sp := 0, pc := 0, status := .powerOn, bus }

/-- The byte in a register. -/
def get (m : Machine σ) : Register → Byte
  | .a => m.a
  | .x => m.x
  | .y => m.y
  | .sp => m.sp

/-- The machine after a register has been given a byte. -/
def set (m : Machine σ) (r : Register) (v : Byte) : Machine σ :=
  match r with
  | .a => { m with a := v }
  | .x => { m with x := v }
  | .y => { m with y := v }
  | .sp => { m with sp := v }

/-- The machine after zero and negative have been set from a result. -/
def withZN (m : Machine σ) (result : Byte) : Machine σ :=
  { m with status := m.status.setZN result }

/-- The machine after a result has gone into a register and decided zero and negative. -/
def setResult (m : Machine σ) (r : Register) (v : Byte) : Machine σ :=
  (m.set r v).withZN v

/-- The cell of the stack page at a stack pointer. -/
def stackCell (sp : Byte) : Address := stackPage + sp.toUInt16

variable [Bus σ]

/-- The machine after a byte has been sent over the bus. -/
def write (m : Machine σ) (a : Address) (v : Byte) : Machine σ :=
  { m with bus := Bus.write m.bus a v }

/-- Writes a byte at the stack pointer, which then steps down. -/
def push (m : Machine σ) (v : Byte) : Machine σ :=
  let m := m.write (stackCell m.sp) v
  { m with sp := m.sp - 1 }

/-- Steps the stack pointer up and reads the byte there. -/
def pull (m : Machine σ) : Byte × Machine σ :=
  let sp := m.sp + 1
  (Bus.read m.bus (stackCell sp), { m with sp })

/-- Pushes the high byte of a word and then its low byte. -/
def pushWord (m : Machine σ) (w : Address) : Machine σ :=
  (m.push (highByte w)).push (lowByte w)

/-- Pulls the low byte of a word and then its high byte. -/
def pullWord (m : Machine σ) : Address × Machine σ :=
  let (low, m) := m.pull
  let (high, m) := m.pull
  (wordOf low high, m)

/-- The machine after it has gone to the address that is stored at a vector. -/
def goThrough (m : Machine σ) (vector : Address) : Machine σ :=
  { m with pc := Bus.readWord m.bus vector }

/-! ### Operands -/

/-- The operand behind the opcode, and the machine with its program counter past it. -/
def takeOperand (m : Machine σ) (mode : AddressingMode) : Operand × Machine σ :=
  let (operand, pc) := resolve m.bus mode m.pc m.x m.y
  (operand, { m with pc })

/-- The byte that an operand holds; an operand that holds none reads as zero. -/
def operandValue (m : Machine σ) : Operand → Byte
  | .accumulator => m.a
  | .address a => Bus.read m.bus a
  | .none | .offset _ => 0

/-- The machine after a byte has been put where an operand is, if it is anywhere. -/
def putOperand (m : Machine σ) (v : Byte) : Operand → Machine σ
  | .accumulator => { m with a := v }
  | .address a => m.write a v
  | .none | .offset _ => m

/-! ### What moving bytes leaves alone -/

section

variable {σ : Type}

@[simp] theorem pc_set (m : Machine σ) (r : Register) (v : Byte) : (m.set r v).pc = m.pc := by
  cases r <;> rfl

@[simp] theorem bus_set (m : Machine σ) (r : Register) (v : Byte) : (m.set r v).bus = m.bus := by
  cases r <;> rfl

@[simp] theorem status_set (m : Machine σ) (r : Register) (v : Byte) :
    (m.set r v).status = m.status := by
  cases r <;> rfl

@[simp] theorem get_set_self (m : Machine σ) (r : Register) (v : Byte) : (m.set r v).get r = v := by
  cases r <;> rfl

theorem get_set_ne (m : Machine σ) {r q : Register} (h : r ≠ q) (v : Byte) :
    (m.set r v).get q = m.get q := by
  cases r <;> cases q <;> first | rfl | exact absurd rfl h

@[simp] theorem pc_setResult (m : Machine σ) (r : Register) (v : Byte) :
    (m.setResult r v).pc = m.pc := pc_set m r v

@[simp] theorem bus_setResult (m : Machine σ) (r : Register) (v : Byte) :
    (m.setResult r v).bus = m.bus := bus_set m r v

theorem get_setResult_ne (m : Machine σ) {r q : Register} (h : r ≠ q) (v : Byte) :
    (m.setResult r v).get q = m.get q := get_set_ne m h v

@[simp] theorem get_setResult_self (m : Machine σ) (r : Register) (v : Byte) :
    (m.setResult r v).get r = v := get_set_self m r v

theorem status_setResult (m : Machine σ) (r : Register) (v : Byte) :
    (m.setResult r v).status = m.status.setZN v := by
  rw [setResult, withZN, status_set]

end

theorem get_push_ne (m : Machine σ) {r : Register} (h : r ≠ .sp) (v : Byte) :
    (m.push v).get r = m.get r := by
  cases r with
  | sp => exact absurd rfl h
  | _ => rfl

theorem get_pushWord_ne (m : Machine σ) {r : Register} (h : r ≠ .sp) (w : Address) :
    (m.pushWord w).get r = m.get r := by
  rw [pushWord, get_push_ne _ h, get_push_ne _ h]

@[simp] theorem get_goThrough (m : Machine σ) (vector : Address) (r : Register) :
    (m.goThrough vector).get r = m.get r := by
  cases r <;> rfl

@[simp] theorem bus_goThrough (m : Machine σ) (vector : Address) :
    (m.goThrough vector).bus = m.bus := rfl

@[simp] theorem pc_putOperand (m : Machine σ) (v : Byte) (operand : Operand) :
    (m.putOperand v operand).pc = m.pc := by
  cases operand <;> rfl

end Machine

end Nmos6502
