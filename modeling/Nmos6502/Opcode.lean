/-
The opcode table.

An opcode byte names an instruction, an addressing mode and a base cost in cycles, or
it names nothing: 151 of the 256 bytes are documented, and the table has no entry for
the other 105.  The cost is the documented one without what a real chip adds for a
crossed page or a branch taken.
-/
import Nmos6502.Addressing
import Nmos6502.Instruction

namespace Nmos6502

/-- What a defined opcode stands for. -/
structure Opcode where
  /-- The instruction to execute. -/
  instruction : Instruction
  /-- How the instruction finds its operand. -/
  mode : AddressingMode
  /-- The base cost in cycles. -/
  cycles : Byte
  deriving DecidableEq, Repr

namespace Opcode

/-- The bytes that the instruction occupies, opcode included. -/
def size (entry : Opcode) : Nat := 1 + entry.mode.operandLength

/-- The entries of all opcode bytes in order, sixteen to a block. -/
def table : Array (Option Opcode) :=
  #[
    -- $0x
    some ⟨.brk, .implied, 7⟩, some ⟨.ora, .indirectX, 6⟩, none, none, none,
    some ⟨.ora, .zeroPage, 3⟩, some ⟨.asl, .zeroPage, 5⟩, none, some ⟨.php, .implied, 3⟩,
    some ⟨.ora, .immediate, 2⟩, some ⟨.asl, .accumulator, 2⟩, none, none,
    some ⟨.ora, .absolute, 4⟩, some ⟨.asl, .absolute, 6⟩, none,
    -- $1x
    some ⟨.bpl, .relative, 2⟩, some ⟨.ora, .indirectY, 5⟩, none, none, none,
    some ⟨.ora, .zeroPageX, 4⟩, some ⟨.asl, .zeroPageX, 6⟩, none, some ⟨.clc, .implied, 2⟩,
    some ⟨.ora, .absoluteY, 4⟩, none, none, none, some ⟨.ora, .absoluteX, 4⟩,
    some ⟨.asl, .absoluteX, 7⟩, none,
    -- $2x
    some ⟨.jsr, .absolute, 6⟩, some ⟨.and, .indirectX, 6⟩, none, none, some ⟨.bit, .zeroPage, 3⟩,
    some ⟨.and, .zeroPage, 3⟩, some ⟨.rol, .zeroPage, 5⟩, none, some ⟨.plp, .implied, 4⟩,
    some ⟨.and, .immediate, 2⟩, some ⟨.rol, .accumulator, 2⟩, none, some ⟨.bit, .absolute, 4⟩,
    some ⟨.and, .absolute, 4⟩, some ⟨.rol, .absolute, 6⟩, none,
    -- $3x
    some ⟨.bmi, .relative, 2⟩, some ⟨.and, .indirectY, 5⟩, none, none, none,
    some ⟨.and, .zeroPageX, 4⟩, some ⟨.rol, .zeroPageX, 6⟩, none, some ⟨.sec, .implied, 2⟩,
    some ⟨.and, .absoluteY, 4⟩, none, none, none, some ⟨.and, .absoluteX, 4⟩,
    some ⟨.rol, .absoluteX, 7⟩, none,
    -- $4x
    some ⟨.rti, .implied, 6⟩, some ⟨.eor, .indirectX, 6⟩, none, none, none,
    some ⟨.eor, .zeroPage, 3⟩, some ⟨.lsr, .zeroPage, 5⟩, none, some ⟨.pha, .implied, 3⟩,
    some ⟨.eor, .immediate, 2⟩, some ⟨.lsr, .accumulator, 2⟩, none, some ⟨.jmp, .absolute, 3⟩,
    some ⟨.eor, .absolute, 4⟩, some ⟨.lsr, .absolute, 6⟩, none,
    -- $5x
    some ⟨.bvc, .relative, 2⟩, some ⟨.eor, .indirectY, 5⟩, none, none, none,
    some ⟨.eor, .zeroPageX, 4⟩, some ⟨.lsr, .zeroPageX, 6⟩, none, some ⟨.cli, .implied, 2⟩,
    some ⟨.eor, .absoluteY, 4⟩, none, none, none, some ⟨.eor, .absoluteX, 4⟩,
    some ⟨.lsr, .absoluteX, 7⟩, none,
    -- $6x
    some ⟨.rts, .implied, 6⟩, some ⟨.adc, .indirectX, 6⟩, none, none, none,
    some ⟨.adc, .zeroPage, 3⟩, some ⟨.ror, .zeroPage, 5⟩, none, some ⟨.pla, .implied, 4⟩,
    some ⟨.adc, .immediate, 2⟩, some ⟨.ror, .accumulator, 2⟩, none, some ⟨.jmp, .indirect, 5⟩,
    some ⟨.adc, .absolute, 4⟩, some ⟨.ror, .absolute, 6⟩, none,
    -- $7x
    some ⟨.bvs, .relative, 2⟩, some ⟨.adc, .indirectY, 5⟩, none, none, none,
    some ⟨.adc, .zeroPageX, 4⟩, some ⟨.ror, .zeroPageX, 6⟩, none, some ⟨.sei, .implied, 2⟩,
    some ⟨.adc, .absoluteY, 4⟩, none, none, none, some ⟨.adc, .absoluteX, 4⟩,
    some ⟨.ror, .absoluteX, 7⟩, none,
    -- $8x
    none, some ⟨.sta, .indirectX, 6⟩, none, none, some ⟨.sty, .zeroPage, 3⟩,
    some ⟨.sta, .zeroPage, 3⟩, some ⟨.stx, .zeroPage, 3⟩, none, some ⟨.dey, .implied, 2⟩, none,
    some ⟨.txa, .implied, 2⟩, none, some ⟨.sty, .absolute, 4⟩, some ⟨.sta, .absolute, 4⟩,
    some ⟨.stx, .absolute, 4⟩, none,
    -- $9x
    some ⟨.bcc, .relative, 2⟩, some ⟨.sta, .indirectY, 6⟩, none, none, some ⟨.sty, .zeroPageX, 4⟩,
    some ⟨.sta, .zeroPageX, 4⟩, some ⟨.stx, .zeroPageY, 4⟩, none, some ⟨.tya, .implied, 2⟩,
    some ⟨.sta, .absoluteY, 5⟩, some ⟨.txs, .implied, 2⟩, none, none, some ⟨.sta, .absoluteX, 5⟩,
    none, none,
    -- $Ax
    some ⟨.ldy, .immediate, 2⟩, some ⟨.lda, .indirectX, 6⟩, some ⟨.ldx, .immediate, 2⟩, none,
    some ⟨.ldy, .zeroPage, 3⟩, some ⟨.lda, .zeroPage, 3⟩, some ⟨.ldx, .zeroPage, 3⟩, none,
    some ⟨.tay, .implied, 2⟩, some ⟨.lda, .immediate, 2⟩, some ⟨.tax, .implied, 2⟩, none,
    some ⟨.ldy, .absolute, 4⟩, some ⟨.lda, .absolute, 4⟩, some ⟨.ldx, .absolute, 4⟩, none,
    -- $Bx
    some ⟨.bcs, .relative, 2⟩, some ⟨.lda, .indirectY, 5⟩, none, none, some ⟨.ldy, .zeroPageX, 4⟩,
    some ⟨.lda, .zeroPageX, 4⟩, some ⟨.ldx, .zeroPageY, 4⟩, none, some ⟨.clv, .implied, 2⟩,
    some ⟨.lda, .absoluteY, 4⟩, some ⟨.tsx, .implied, 2⟩, none, some ⟨.ldy, .absoluteX, 4⟩,
    some ⟨.lda, .absoluteX, 4⟩, some ⟨.ldx, .absoluteY, 4⟩, none,
    -- $Cx
    some ⟨.cpy, .immediate, 2⟩, some ⟨.cmp, .indirectX, 6⟩, none, none, some ⟨.cpy, .zeroPage, 3⟩,
    some ⟨.cmp, .zeroPage, 3⟩, some ⟨.dec, .zeroPage, 5⟩, none, some ⟨.iny, .implied, 2⟩,
    some ⟨.cmp, .immediate, 2⟩, some ⟨.dex, .implied, 2⟩, none, some ⟨.cpy, .absolute, 4⟩,
    some ⟨.cmp, .absolute, 4⟩, some ⟨.dec, .absolute, 6⟩, none,
    -- $Dx
    some ⟨.bne, .relative, 2⟩, some ⟨.cmp, .indirectY, 5⟩, none, none, none,
    some ⟨.cmp, .zeroPageX, 4⟩, some ⟨.dec, .zeroPageX, 6⟩, none, some ⟨.cld, .implied, 2⟩,
    some ⟨.cmp, .absoluteY, 4⟩, none, none, none, some ⟨.cmp, .absoluteX, 4⟩,
    some ⟨.dec, .absoluteX, 7⟩, none,
    -- $Ex
    some ⟨.cpx, .immediate, 2⟩, some ⟨.sbc, .indirectX, 6⟩, none, none, some ⟨.cpx, .zeroPage, 3⟩,
    some ⟨.sbc, .zeroPage, 3⟩, some ⟨.inc, .zeroPage, 5⟩, none, some ⟨.inx, .implied, 2⟩,
    some ⟨.sbc, .immediate, 2⟩, some ⟨.nop, .implied, 2⟩, none, some ⟨.cpx, .absolute, 4⟩,
    some ⟨.sbc, .absolute, 4⟩, some ⟨.inc, .absolute, 6⟩, none,
    -- $Fx
    some ⟨.beq, .relative, 2⟩, some ⟨.sbc, .indirectY, 5⟩, none, none, none,
    some ⟨.sbc, .zeroPageX, 4⟩, some ⟨.inc, .zeroPageX, 6⟩, none, some ⟨.sed, .implied, 2⟩,
    some ⟨.sbc, .absoluteY, 4⟩, none, none, none, some ⟨.sbc, .absoluteX, 4⟩,
    some ⟨.inc, .absoluteX, 7⟩, none
  ]

/--
The entry of an opcode byte, if the byte is documented.  Irreducible, so that a proof
about an unknown opcode never walks through the table; facts about the table itself
are closed and left to the kernel.
-/
@[irreducible] def lookup (b : Byte) : Option Opcode :=
  table[b.toNat]?.join

end Opcode

end Nmos6502
