/-
How an instruction finds its operand.

Thirteen modes, each of which turns the bytes behind the opcode, the index registers
and, for the three indirect modes, a pointer in memory into an operand.  Three wraps
meet here and are easy to mix up: an indexed zero-page address stays in page zero, a
zero-page pointer has both its bytes in page zero, and every other sum runs around the
end of the sixteen-bit address space.  The absolute pointer of `JMP` is read across a
page boundary like any other word.
-/
import Nmos6502.Bus

namespace Nmos6502

/-- The ways in which the bytes behind an opcode name an operand. -/
inductive AddressingMode
  /-- The instruction has no operand. -/
  | implied
  /-- The operand is the accumulator. -/
  | accumulator
  /-- The operand is the byte behind the opcode. -/
  | immediate
  /-- A cell of page zero. -/
  | zeroPage
  /-- A cell of page zero, `X` behind the one named. -/
  | zeroPageX
  /-- A cell of page zero, `Y` behind the one named. -/
  | zeroPageY
  /-- A signed distance from the next instruction. -/
  | relative
  /-- A cell anywhere. -/
  | absolute
  /-- A cell anywhere, `X` behind the one named. -/
  | absoluteX
  /-- A cell anywhere, `Y` behind the one named. -/
  | absoluteY
  /-- The cell whose address is in the two cells named. -/
  | indirect
  /-- The cell whose address is in page zero, `X` behind the cell named. -/
  | indirectX
  /-- The cell `Y` behind the one whose address is in the page-zero cells named. -/
  | indirectY
  deriving DecidableEq, Repr

namespace AddressingMode

/-- All modes. -/
def all : List AddressingMode :=
  [implied, accumulator, immediate, zeroPage, zeroPageX, zeroPageY, relative, absolute,
   absoluteX, absoluteY, indirect, indirectX, indirectY]

/-- The three letters by which a listing names the mode. -/
def tag : AddressingMode → String
  | implied => "IMP"
  | accumulator => "ACC"
  | immediate => "IMM"
  | zeroPage => "ZP0"
  | zeroPageX => "ZPX"
  | zeroPageY => "ZPY"
  | relative => "REL"
  | absolute => "ABS"
  | absoluteX => "ABX"
  | absoluteY => "ABY"
  | indirect => "IND"
  | indirectX => "INX"
  | indirectY => "INY"

/-- How many bytes behind the opcode belong to the instruction. -/
def operandLength : AddressingMode → Nat
  | implied | accumulator => 0
  | immediate | zeroPage | zeroPageX | zeroPageY | relative | indirectX | indirectY => 1
  | absolute | absoluteX | absoluteY | indirect => 2

/-- No mode is missing from the row. -/
theorem mem_all (mode : AddressingMode) : mode ∈ all := by
  cases mode <;> decide

theorem tag_injective {m n : AddressingMode} (h : m.tag = n.tag) : m = n := by
  cases m <;> cases n <;> simp_all [tag]

theorem operandLength_le (mode : AddressingMode) : mode.operandLength ≤ 2 := by
  cases mode <;> decide

end AddressingMode

/-- What an instruction works on. -/
inductive Operand
  /-- Nothing. -/
  | none
  /-- The accumulator. -/
  | accumulator
  /-- The memory cell at an address. -/
  | address (a : Address)
  /-- A place this far behind the next instruction. -/
  | offset (distance : Address)
  deriving DecidableEq, Repr

/-- The cell that an operand names; an operand outside memory stands for cell zero. -/
def Operand.effectiveAddress : Operand → Address
  | .address a => a
  | _ => 0

section

variable {σ : Type} [Bus σ]

/-- Reads a byte of the program and moves the cursor behind it. -/
def fetchByte (bus : σ) (cursor : Address) : Byte × Address :=
  (Bus.read bus cursor, cursor + 1)

/-- Reads a word of the program, low byte first, and moves the cursor behind it. -/
def fetchWord (bus : σ) (cursor : Address) : Address × Address :=
  let (low, cursor) := fetchByte bus cursor
  let (high, cursor) := fetchByte bus cursor
  (wordOf low high, cursor)

/--
The operand of an instruction whose opcode is just before the cursor, and the cursor
behind the instruction's last byte.
-/
def resolve (bus : σ) (mode : AddressingMode) (cursor : Address) (x y : Byte) :
    Operand × Address :=
  match mode with
  | .implied => (.none, cursor)
  | .accumulator => (.accumulator, cursor)
  | .immediate => (.address cursor, cursor + 1)
  | .zeroPage =>
    let (cell, cursor) := fetchByte bus cursor
    (.address cell.toUInt16, cursor)
  | .zeroPageX =>
    let (cell, cursor) := fetchByte bus cursor
    (.address (cell + x).toUInt16, cursor)
  | .zeroPageY =>
    let (cell, cursor) := fetchByte bus cursor
    (.address (cell + y).toUInt16, cursor)
  | .relative =>
    let (distance, cursor) := fetchByte bus cursor
    (.offset (signExtend distance), cursor)
  | .absolute =>
    let (a, cursor) := fetchWord bus cursor
    (.address a, cursor)
  | .absoluteX =>
    let (a, cursor) := fetchWord bus cursor
    (.address (a + x.toUInt16), cursor)
  | .absoluteY =>
    let (a, cursor) := fetchWord bus cursor
    (.address (a + y.toUInt16), cursor)
  | .indirect =>
    let (pointer, cursor) := fetchWord bus cursor
    (.address (Bus.readWord bus pointer), cursor)
  | .indirectX =>
    let (cell, cursor) := fetchByte bus cursor
    (.address (Bus.readZeroPageWord bus (cell + x)), cursor)
  | .indirectY =>
    let (cell, cursor) := fetchByte bus cursor
    (.address (Bus.readZeroPageWord bus cell + y.toUInt16), cursor)

/-- The cursor ends behind the operand bytes, whatever they are. -/
theorem resolve_cursor (bus : σ) (mode : AddressingMode) (cursor : Address) (x y : Byte) :
    (resolve bus mode cursor x y).2 = cursor + UInt16.ofNat mode.operandLength := by
  cases mode <;>
    simp [resolve, fetchByte, fetchWord, AddressingMode.operandLength, UInt16.add_assoc]

end

end Nmos6502
