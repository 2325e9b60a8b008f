/-
The text of a decoded instruction.

A line gives the address, the mnemonic, the operand as an assembler would take it, and
the tag of the addressing mode in parentheses.  The operand shows the bytes of the
instruction and not what they resolve to, so the text is a function of the code alone;
the one number it adds is a branch's target, which the code determines.  A byte that
names no instruction is listed as data.
-/
import Nmos6502.Decoded
import Nmos6502.Text.Hex

namespace Nmos6502

namespace Decoded

/-- The first operand byte, zero if there is none. -/
def firstByte (d : Decoded) : Byte := d.operandBytes.headD 0

/-- The two operand bytes as an address; any other number of them counts as its first byte. -/
def operandWord (d : Decoded) : Address :=
  match d.operandBytes with
  | [low, high] => wordOf low high
  | _ => d.firstByte.toUInt16

/-- The operand in assembler notation, empty for an instruction that has none. -/
def operandText (d : Decoded) : String :=
  let byte := "$" ++ hexByte d.firstByte
  let word := "$" ++ hexAddress d.operandWord
  match d.mode with
  | .implied => ""
  | .accumulator => "A"
  | .immediate => "#" ++ byte
  | .zeroPage => byte
  | .zeroPageX => byte ++ ",X"
  | .zeroPageY => byte ++ ",Y"
  | .relative => byte ++ " [$" ++ hexAddress (d.branchTarget.getD d.address) ++ "]"
  | .absolute => word
  | .absoluteX => word ++ ",X"
  | .absoluteY => word ++ ",Y"
  | .indirect => "(" ++ word ++ ")"
  | .indirectX => "(" ++ byte ++ ",X)"
  | .indirectY => "(" ++ byte ++ "),Y"

/-- The line of a listing for the instruction. -/
def text (d : Decoded) : String :=
  let operand := if d.operandText.isEmpty then "" else " " ++ d.operandText
  "$" ++ hexAddress d.address ++ ": " ++ d.instruction.mnemonic ++ operand ++
    " (" ++ d.mode.tag ++ ")"

end Decoded

/-- The line of a listing for a byte that names no instruction. -/
def undefinedText (address : Address) (opcode : Byte) : String :=
  "$" ++ hexAddress address ++ ": .byte $" ++ hexByte opcode

end Nmos6502
