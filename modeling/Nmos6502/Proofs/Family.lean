/-
Instructions by family, and what a family does once the operand is known.

The handlers of `Machine/Execute` each find their operand by walking the live program
counter.  Here the walk is taken out: `Family` says what an instruction does,
`Machine.perform` does it to an operand that somebody else has resolved, and
`execute_eq_perform` says that executing is resolving once and performing.  The one
thing it needs from the opcode table is that every instruction is paired with modes
that its family can use, `Opcode.fits_of_lookup`; an instruction without an operand
that was given an operand byte would leave that byte to be executed.

Everything that is proved about the instruction set as a whole goes over the
constructors of `Family` instead of the instructions.
-/
import Nmos6502.Decoded
import Nmos6502.Machine.Execute

namespace Nmos6502

/-- What an instruction does, with what tells it from the others that do the same. -/
inductive Family
  | load (r : Register)
  | store (r : Register)
  /-- Copies a register to another one, which decides zero and negative. -/
  | transfer (source target : Register)
  /-- Copies `X` to the stack pointer and decides nothing. -/
  | moveToStack
  /-- Puts a sum of accumulator, operand and carry into the accumulator. -/
  | accumulate (sum : Byte → Byte → Bool → ByteSum)
  /-- Combines accumulator and operand bit by bit. -/
  | combine (op : Byte → Byte → Byte)
  | compare (r : Register)
  | bitTest
  /-- Reads the operand and puts a result in its place. -/
  | modify (op : Byte → Bool → Shifted)
  | adjustRegister (r : Register) (delta : Byte)
  | setFlag (f : Flag) (on : Bool)
  | pushAccumulator
  | pushStatus
  | pullAccumulator
  | pullStatus
  /-- Branches if a flag has a value. -/
  | branch (f : Flag) (on : Bool)
  | jump
  | call
  | returnFromCall
  | breakProgram
  | returnFromInterrupt
  | idle

/-- The family of an instruction. -/
def Instruction.family : Instruction → Family
  | .lda => .load .a
  | .ldx => .load .x
  | .ldy => .load .y
  | .sta => .store .a
  | .stx => .store .x
  | .sty => .store .y
  | .tax => .transfer .a .x
  | .tay => .transfer .a .y
  | .txa => .transfer .x .a
  | .tya => .transfer .y .a
  | .tsx => .transfer .sp .x
  | .txs => .moveToStack
  | .adc => .accumulate addWithCarry
  | .sbc => .accumulate subtractWithBorrow
  | .and => .combine (· &&& ·)
  | .ora => .combine (· ||| ·)
  | .eor => .combine (· ^^^ ·)
  | .cmp => .compare .a
  | .cpx => .compare .x
  | .cpy => .compare .y
  | .bit => .bitTest
  | .asl => .modify fun v _ => shiftLeft v false
  | .lsr => .modify fun v _ => shiftRight v false
  | .rol => .modify shiftLeft
  | .ror => .modify shiftRight
  | .inc => .modify fun v carry => ⟨v + 1, carry⟩
  | .dec => .modify fun v carry => ⟨v + -1, carry⟩
  | .inx => .adjustRegister .x 1
  | .iny => .adjustRegister .y 1
  | .dex => .adjustRegister .x (-1)
  | .dey => .adjustRegister .y (-1)
  | .clc => .setFlag .carry false
  | .sec => .setFlag .carry true
  | .cli => .setFlag .interruptDisable false
  | .sei => .setFlag .interruptDisable true
  | .cld => .setFlag .decimal false
  | .sed => .setFlag .decimal true
  | .clv => .setFlag .overflow false
  | .pha => .pushAccumulator
  | .php => .pushStatus
  | .pla => .pullAccumulator
  | .plp => .pullStatus
  | .bcc => .branch .carry false
  | .bcs => .branch .carry true
  | .bne => .branch .zero false
  | .beq => .branch .zero true
  | .bpl => .branch .negative false
  | .bmi => .branch .negative true
  | .bvc => .branch .overflow false
  | .bvs => .branch .overflow true
  | .jmp => .jump
  | .jsr => .call
  | .rts => .returnFromCall
  | .brk => .breakProgram
  | .rti => .returnFromInterrupt
  | .nop => .idle

/-! ### The modes that a family can use -/

/-- Whether the mode names a memory cell. -/
def AddressingMode.namesCell : AddressingMode → Bool
  | implied | accumulator | relative => false
  | _ => true

/-- Whether instructions of the family can find their operand by the mode. -/
def Family.fits : Family → AddressingMode → Bool
  | load _, mode | accumulate _, mode | combine _, mode | compare _, mode | bitTest, mode =>
      mode.namesCell
  | store _, mode => mode.namesCell && mode != .immediate
  | modify _, mode => mode == .accumulator || mode.namesCell && mode != .immediate
  | branch _ _, mode => mode == .relative
  | jump, mode => mode == .absolute || mode == .indirect
  | call, mode => mode == .absolute
  | _, mode => mode == .implied

theorem Opcode.getElem?_table_of_lookup {b : Byte} {entry : Opcode}
    (h : Opcode.lookup b = some entry) : Opcode.table.toList[b.toNat]? = some (some entry) := by
  unfold Opcode.lookup at h
  rw [Array.getElem?_toList]
  exact Option.join_eq_some_iff.mp h

/-- The table pairs every instruction with a mode that its family can use. -/
theorem Opcode.fits_of_lookup {b : Byte} {entry : Opcode}
    (h : Opcode.lookup b = some entry) : entry.instruction.family.fits entry.mode = true := by
  have hall : ∀ o ∈ Opcode.table.toList,
      o.all (fun e => e.instruction.family.fits e.mode) = true := by
    decide +kernel
  exact hall _ (List.mem_of_getElem? (Opcode.getElem?_table_of_lookup h))

theorem Family.namesCell_of_fits_jump {mode : AddressingMode} (h : Family.jump.fits mode = true) :
    mode.namesCell = true := by
  rcases Bool.or_eq_true_iff.mp h with hmode | hmode
  · rw [eq_of_beq hmode]
    rfl
  · rw [eq_of_beq hmode]
    rfl

theorem Family.namesCell_of_fits_call {mode : AddressingMode} (h : Family.call.fits mode = true) :
    mode.namesCell = true := by
  rw [eq_of_beq h]
  rfl

section

variable {σ : Type} [Bus σ]

theorem exists_address_of_namesCell {mode : AddressingMode} (h : mode.namesCell = true)
    (bus : σ) (cursor : Address) (x y : Byte) :
    ∃ a, (resolve bus mode cursor x y).1 = .address a := by
  cases mode with
  | implied => exact absurd h (by decide)
  | accumulator => exact absurd h (by decide)
  | relative => exact absurd h (by decide)
  | _ => exact ⟨_, rfl⟩

end

/-! ### Performing an instruction on a resolved operand -/

namespace Machine

variable {σ : Type}

/-- The machine after an instruction that only reads its operand has been handed the byte. -/
def consume (m : Machine σ) (v : Byte) : Family → Machine σ
  | .load r => m.setResult r v
  | .accumulate sum =>
      let s := sum m.a v m.status.carry
      { m with
        a := s.value
        status := { m.status.setZN s.value with carry := s.carry, overflow := s.overflow } }
  | .combine op => m.setResult .a (op m.a v)
  | .compare r =>
      let c := compareBytes (m.get r) v
      { m with status := { m.status.setZN c.difference with carry := c.carry } }
  | .bitTest =>
      { m with status := { m.status with
          zero := m.a &&& v == 0, negative := signBit v, overflow := v &&& 0x40 != 0 } }
  | _ => m

@[simp] theorem pc_consume (m : Machine σ) (v : Byte) (family : Family) :
    (m.consume v family).pc = m.pc := by
  cases family <;> simp [consume]

@[simp] theorem bus_consume (m : Machine σ) (v : Byte) (family : Family) :
    (m.consume v family).bus = m.bus := by
  cases family <;> simp [consume]

variable [Bus σ]

/-- The machine after a result has been put where the operand is and has decided the flags. -/
def putResult (m : Machine σ) (s : Shifted) (operand : Operand) : Machine σ :=
  let m := m.putOperand s.value operand
  { m with status := { m.status.setZN s.value with carry := s.carry } }

/--
The machine after an instruction whose bytes lie behind the program counter and whose
operand is known.
-/
def perform (m : Machine σ) (operand : Operand) (family : Family) : Machine σ :=
  match family with
  | .load _ | .accumulate _ | .combine _ | .compare _ | .bitTest =>
      m.consume (m.operandValue operand) family
  | .store r => m.write operand.effectiveAddress (m.get r)
  | .modify op => m.putResult (op (m.operandValue operand) m.status.carry) operand
  | .transfer source target => m.transfer source target
  | .moveToStack => m.set .sp m.x
  | .adjustRegister r delta => m.adjustRegister r delta
  | .setFlag f on => m.setFlag f on
  | .pushAccumulator => m.push m.a
  | .pushStatus => m.pushStatus
  | .pullAccumulator => m.pullAccumulator
  | .pullStatus => m.pullStatus
  | .branch f on =>
      match operand with
      | .offset distance => if m.status.get f == on then { m with pc := m.pc + distance } else m
      | _ => m
  | .jump => { m with pc := operand.effectiveAddress }
  | .call => { m.pushWord (m.pc - 1) with pc := operand.effectiveAddress }
  | .returnFromCall => m.returnFromCall
  | .breakProgram => m.breakProgram
  | .returnFromInterrupt => m.returnFromInterrupt
  | .idle => m

/-- Taking the operand is resolving it and moving behind it. -/
theorem takeOperand_eq (m : Machine σ) (mode : AddressingMode) :
    m.takeOperand mode =
      ((resolve m.bus mode m.pc m.x m.y).1,
        { m with pc := m.pc + UInt16.ofNat mode.operandLength }) := by
  rw [← resolve_cursor m.bus mode m.pc m.x m.y]
  rfl

/-- Adding to the operand in its place keeps the carry. -/
theorem withZN_putOperand (m : Machine σ) (v : Byte) (operand : Operand) :
    (m.putOperand v operand).withZN v = m.putResult ⟨v, m.status.carry⟩ operand := by
  cases operand <;> rfl

/-- A branch moves nothing but the program counter. -/
theorem exists_perform_branch (m : Machine σ) (operand : Operand) (f : Flag) (on : Bool) :
    ∃ a, m.perform operand (.branch f on) = { m with pc := a } := by
  cases operand with
  | offset distance =>
      by_cases htaken : (m.status.get f == on) = true
      · exact ⟨m.pc + distance, if_pos htaken⟩
      · exact ⟨m.pc, if_neg htaken⟩
  | _ => exact ⟨m.pc, rfl⟩

/-- **Executing an instruction is resolving its operand once and performing it.** -/
theorem execute_eq_perform (m : Machine σ) {i : Instruction} {mode : AddressingMode}
    (h : i.family.fits mode = true) :
    m.execute i mode =
      { m with pc := m.pc + UInt16.ofNat mode.operandLength }.perform
        (resolve m.bus mode m.pc m.x m.y).1 i.family := by
  -- An instruction without an operand stays where it is, so its mode has to take no byte.
  have himplied : mode = .implied →
      { m with pc := m.pc + UInt16.ofNat mode.operandLength } = m := by
    rintro rfl
    show { m with pc := m.pc + 0 } = m
    rw [UInt16.add_zero]
  cases i with
  | lda | ldx | ldy =>
      rw [execute, load, takeOperand_eq]
      rfl
  | sta | stx | sty =>
      rw [execute, store, takeOperand_eq]
      rfl
  | adc | sbc =>
      rw [execute, accumulate, takeOperand_eq]
      rfl
  | and | ora | eor =>
      rw [execute, combine, takeOperand_eq]
      rfl
  | cmp | cpx | cpy =>
      rw [execute, compareWith, takeOperand_eq]
      rfl
  | bit =>
      rw [execute, bitTest, takeOperand_eq]
      rfl
  | asl | lsr | rol | ror =>
      rw [execute, shift, takeOperand_eq]
      rfl
  | inc | dec =>
      rw [execute, adjust, takeOperand_eq]
      exact withZN_putOperand _ _ _
  | bcc | bcs | bne | beq | bpl | bmi | bvc | bvs =>
      rw [execute, branch, takeOperand_eq]
      rfl
  | jmp =>
      rw [execute, jump, takeOperand_eq]
      rfl
  | jsr =>
      rw [execute, call, takeOperand_eq]
      rfl
  | _ =>
      rw [himplied (by simpa [Instruction.family, Family.fits] using h)]
      rfl

end Machine

end Nmos6502
