/-
The instructions of the processor, by their assembler mnemonics.

What each of them does is said in `Machine/Execute`; here they are names, with the
three letters by which listings show them.
-/

namespace Nmos6502

/-- The 56 documented instructions. -/
inductive Instruction
  /-- Adds memory and carry to the accumulator. -/
  | adc
  /-- Keeps the accumulator bits that memory has too. -/
  | and
  /-- Shifts one place left, a zero coming in. -/
  | asl
  /-- Branches when carry is clear. -/
  | bcc
  /-- Branches when carry is set. -/
  | bcs
  /-- Branches when the last result was zero. -/
  | beq
  /-- Tests memory against the accumulator. -/
  | bit
  /-- Branches when the last result was negative. -/
  | bmi
  /-- Branches when the last result was not zero. -/
  | bne
  /-- Branches when the last result was not negative. -/
  | bpl
  /-- Interrupts itself. -/
  | brk
  /-- Branches when overflow is clear. -/
  | bvc
  /-- Branches when overflow is set. -/
  | bvs
  /-- Clears carry. -/
  | clc
  /-- Clears decimal mode. -/
  | cld
  /-- Lets maskable interrupts in. -/
  | cli
  /-- Clears overflow. -/
  | clv
  /-- Compares the accumulator with memory. -/
  | cmp
  /-- Compares `X` with memory. -/
  | cpx
  /-- Compares `Y` with memory. -/
  | cpy
  /-- Takes one from memory. -/
  | dec
  /-- Takes one from `X`. -/
  | dex
  /-- Takes one from `Y`. -/
  | dey
  /-- Flips the accumulator bits that memory has. -/
  | eor
  /-- Adds one to memory. -/
  | inc
  /-- Adds one to `X`. -/
  | inx
  /-- Adds one to `Y`. -/
  | iny
  /-- Goes to the operand. -/
  | jmp
  /-- Calls the operand as a subroutine. -/
  | jsr
  /-- Loads the accumulator. -/
  | lda
  /-- Loads `X`. -/
  | ldx
  /-- Loads `Y`. -/
  | ldy
  /-- Shifts one place right, a zero coming in. -/
  | lsr
  /-- Does nothing. -/
  | nop
  /-- Sets the accumulator bits that memory has. -/
  | ora
  /-- Pushes the accumulator. -/
  | pha
  /-- Pushes the status. -/
  | php
  /-- Pulls the accumulator. -/
  | pla
  /-- Pulls the status. -/
  | plp
  /-- Shifts one place left, the carry coming in. -/
  | rol
  /-- Shifts one place right, the carry coming in. -/
  | ror
  /-- Returns from an interrupt. -/
  | rti
  /-- Returns from a subroutine. -/
  | rts
  /-- Takes memory and borrow from the accumulator. -/
  | sbc
  /-- Sets carry. -/
  | sec
  /-- Sets decimal mode. -/
  | sed
  /-- Keeps maskable interrupts out. -/
  | sei
  /-- Stores the accumulator. -/
  | sta
  /-- Stores `X`. -/
  | stx
  /-- Stores `Y`. -/
  | sty
  /-- Copies the accumulator to `X`. -/
  | tax
  /-- Copies the accumulator to `Y`. -/
  | tay
  /-- Copies the stack pointer to `X`. -/
  | tsx
  /-- Copies `X` to the accumulator. -/
  | txa
  /-- Copies `X` to the stack pointer. -/
  | txs
  /-- Copies `Y` to the accumulator. -/
  | tya
  deriving DecidableEq, Repr

namespace Instruction

/-- All instructions in alphabetical order. -/
def all : List Instruction :=
  [adc, and, asl, bcc, bcs, beq, bit, bmi, bne, bpl, brk, bvc, bvs, clc,
   cld, cli, clv, cmp, cpx, cpy, dec, dex, dey, eor, inc, inx, iny, jmp,
   jsr, lda, ldx, ldy, lsr, nop, ora, pha, php, pla, plp, rol, ror, rti,
   rts, sbc, sec, sed, sei, sta, stx, sty, tax, tay, tsx, txa, txs, tya]

/-- The upper-case assembler mnemonic. -/
def mnemonic : Instruction → String
  | adc => "ADC"
  | and => "AND"
  | asl => "ASL"
  | bcc => "BCC"
  | bcs => "BCS"
  | beq => "BEQ"
  | bit => "BIT"
  | bmi => "BMI"
  | bne => "BNE"
  | bpl => "BPL"
  | brk => "BRK"
  | bvc => "BVC"
  | bvs => "BVS"
  | clc => "CLC"
  | cld => "CLD"
  | cli => "CLI"
  | clv => "CLV"
  | cmp => "CMP"
  | cpx => "CPX"
  | cpy => "CPY"
  | dec => "DEC"
  | dex => "DEX"
  | dey => "DEY"
  | eor => "EOR"
  | inc => "INC"
  | inx => "INX"
  | iny => "INY"
  | jmp => "JMP"
  | jsr => "JSR"
  | lda => "LDA"
  | ldx => "LDX"
  | ldy => "LDY"
  | lsr => "LSR"
  | nop => "NOP"
  | ora => "ORA"
  | pha => "PHA"
  | php => "PHP"
  | pla => "PLA"
  | plp => "PLP"
  | rol => "ROL"
  | ror => "ROR"
  | rti => "RTI"
  | rts => "RTS"
  | sbc => "SBC"
  | sec => "SEC"
  | sed => "SED"
  | sei => "SEI"
  | sta => "STA"
  | stx => "STX"
  | sty => "STY"
  | tax => "TAX"
  | tay => "TAY"
  | tsx => "TSX"
  | txa => "TXA"
  | txs => "TXS"
  | tya => "TYA"

/-- The instruction with a given mnemonic. -/
def ofMnemonic? (name : String) : Option Instruction :=
  all.find? fun i => i.mnemonic == name

theorem ofMnemonic?_mnemonic (i : Instruction) : ofMnemonic? i.mnemonic = some i := by
  cases i <;> decide

theorem mnemonic_injective {i j : Instruction} (h : i.mnemonic = j.mnemonic) : i = j := by
  have := ofMnemonic?_mnemonic i
  rw [h, ofMnemonic?_mnemonic] at this
  exact (Option.some.inj this).symm

end Instruction

end Nmos6502
