/-
What an instruction can change in the registers.

`Instruction.registers` and `Instruction.flags` are the footprint of the instruction set:
the eight-bit registers and the status bits that an instruction may change.  Nothing
outside them changes, `get_perform_of_notMem` and `flag_perform_of_notMem`, and the zero
and negative bits, wherever an instruction lets a byte decide them, are decided by the
byte that it computes, `shows_perform`.

The footprint is told by the instruction and not by its family, since the families are
coarser: a shift and an increment rewrite their operand in the same way, but the
increment keeps the carry.  The proofs go over the instructions in the groups that the
footprint puts together.
-/
import Nmos6502.Proofs.Result

namespace Nmos6502

/-! ### The footprint of the instruction set -/

namespace Instruction

/--
The registers that an instruction may change.  A shift changes one where it finds its
operand there.
-/
def registers (i : Instruction) (mode : AddressingMode) : List Register :=
  match i with
  | .lda | .adc | .sbc | .and | .ora | .eor | .txa | .tya => [.a]
  | .asl | .lsr | .rol | .ror => if mode = .accumulator then [.a] else []
  | .ldx | .inx | .dex | .tax | .tsx => [.x]
  | .ldy | .iny | .dey | .tay => [.y]
  | .txs | .pha | .php | .plp | .jsr | .rts | .brk | .rti => [.sp]
  | .pla => [.sp, .a]
  | _ => []

/-- The status bits that an instruction may change. -/
def flags : Instruction → List Flag
  | .lda | .ldx | .ldy | .and | .ora | .eor | .inc | .dec | .inx | .iny | .dex | .dey
  | .tax | .tay | .txa | .tya | .tsx | .pla => [.zero, .negative]
  | .cmp | .cpx | .cpy | .asl | .lsr | .rol | .ror => [.carry, .zero, .negative]
  | .adc | .sbc => [.carry, .zero, .overflow, .negative]
  | .bit => [.zero, .overflow, .negative]
  | .plp | .rti => Flag.all
  | .brk | .cli | .sei => [.interruptDisable]
  | .clc | .sec => [.carry]
  | .cld | .sed => [.decimal]
  | .clv => [.overflow]
  | _ => []

end Instruction

/-! ### Single changes -/

/-- The zero and negative bits are what a byte decides. -/
def Status.Shows (s : Status) (v : Byte) : Prop :=
  s.zero = (v == 0) ∧ s.negative = signBit v

theorem Status.get_setZN_of_notMem (s : Status) {f : Flag} (hf : f ∉ [Flag.zero, .negative])
    (v : Byte) : (s.setZN v).get f = s.get f := by
  cases f with
  | zero | negative => exact absurd (by decide) hf
  | _ => rfl

theorem Status.get_setZN_carry_of_notMem (s : Status) {f : Flag}
    (hf : f ∉ [Flag.carry, .zero, .negative]) (v : Byte) (carry : Bool) :
    Status.get { s.setZN v with carry := carry } f = s.get f := by
  cases f with
  | carry | zero | negative => exact absurd (by decide) hf
  | _ => rfl

/-- An increment is never given the accumulator. -/
theorem Opcode.mode_ne_accumulator {b : Byte} {entry : Opcode} (h : Opcode.lookup b = some entry)
    (hi : entry.instruction = .inc ∨ entry.instruction = .dec) : entry.mode ≠ .accumulator := by
  have hall : ∀ o ∈ Opcode.table.toList, o.all (fun e =>
      !(e.instruction == .inc || e.instruction == .dec) || e.mode != .accumulator) = true := by
    decide +kernel
  have hentry := hall _ (List.mem_of_getElem? (Opcode.getElem?_table_of_lookup h))
  rcases hi with hi | hi
  · simpa [hi] using hentry
  · simpa [hi] using hentry

section

variable {σ : Type} [Bus σ]

theorem operand_of_accumulator {bus : σ} {a : Address} {x y : Byte} {d : Decoded}
    (h : decode bus a x y = some d) (hmode : d.mode = .accumulator) :
    d.operand = .accumulator := by
  rw [operand_of_decode h, hmode]
  rfl

theorem mode_of_operand_accumulator {bus : σ} {a : Address} {x y : Byte} {d : Decoded}
    (h : decode bus a x y = some d) (hoperand : d.operand = .accumulator) :
    d.mode = .accumulator := by
  rw [operand_of_decode h] at hoperand
  cases hmode : d.mode with
  | accumulator => rfl
  | _ =>
      rw [hmode] at hoperand
      exact absurd hoperand (by simp [resolve])

/-- Where an increment finds its operand, there is a cell. -/
theorem operand_ne_accumulator {bus : σ} {a : Address} {x y : Byte} {d : Decoded}
    (h : decode bus a x y = some d) (hi : d.instruction = .inc ∨ d.instruction = .dec) :
    d.operand ≠ .accumulator := by
  intro hoperand
  have hmode := mode_of_operand_accumulator h hoperand
  obtain ⟨entry, hentry, rfl⟩ := exists_entry_of_decode h
  exact Opcode.mode_ne_accumulator hentry hi hmode

end

namespace Machine

variable {σ : Type}

theorem get_with_status (m : Machine σ) (s : Status) (r : Register) :
    { m with status := s }.get r = m.get r := by
  cases r <;> rfl

theorem get_with_pc (m : Machine σ) (a : Address) (r : Register) :
    { m with pc := a }.get r = m.get r := by
  cases r <;> rfl

variable [Bus σ]

/-- A return from a call moves the stack pointer over a word and goes behind it. -/
theorem returnFromCall_eq (m : Machine σ) :
    m.returnFromCall = { m with sp := m.sp + 2, pc := stackWord m.bus m.sp + 1 } := by
  rw [returnFromCall, pullWord_eq]

/-- A return from an interrupt moves it over a status and a word. -/
theorem returnFromInterrupt_eq (m : Machine σ) :
    m.returnFromInterrupt =
      { m with
        sp := m.sp + 3
        status := .ofPulled (Bus.read m.bus (stackCell (m.sp + 1)))
        pc := stackWord m.bus (m.sp + 1) } := by
  have hsp : m.sp + 1 + 2 = m.sp + 3 := UInt8.add_assoc _ _ _
  rw [returnFromInterrupt, pullWord_eq, ← hsp]
  rfl

theorem get_breakProgram_ne (m : Machine σ) {r : Register} (h : r ≠ .sp) :
    m.breakProgram.get r = m.get r := by
  rw [breakProgram, pushStatus, get_goThrough, get_push_ne _ h, get_pushWord_ne _ h,
    get_with_status]

variable {m : Machine σ} {d : Decoded}

/-! ### Registers outside the footprint -/

/-- **An instruction changes no register outside its footprint.** -/
theorem get_perform_of_notMem (hd : decode m.bus m.pc m.x m.y = some d) {r : Register}
    (hr : r ∉ d.instruction.registers d.mode) :
    ((m.past d).perform d.operand d.instruction.family).get r = m.get r := by
  have huse := usesOperand_perform hd
  unfold Decoded.UsesOperand at huse
  rw [← get_past m d r]
  cases hi : d.instruction with
  | lda | ldx | ldy | and | ora | eor | tax | tay | txa | tya | tsx | inx | iny | dex | dey =>
      rw [hi] at hr
      exact get_setResult_ne _ (List.ne_of_not_mem_cons hr).symm _
  | adc | sbc =>
      rw [hi] at hr
      cases r with
      | a => exact absurd List.mem_cons_self hr
      | _ => rfl
  | asl | lsr | rol | ror =>
      rw [hi] at hr huse
      rcases huse with ⟨cell, -, hafter⟩ | ⟨hoperand, hafter⟩
      · rw [hafter]
        rfl
      · rw [mode_of_operand_accumulator hd hoperand] at hr
        rw [hafter]
        cases r with
        | a => exact absurd (by decide) hr
        | _ => rfl
  | inc | dec =>
      rw [hi] at huse
      rcases huse with ⟨cell, -, hafter⟩ | ⟨hoperand, -⟩
      · rw [hafter]
        rfl
      · exact absurd hoperand (operand_ne_accumulator hd (by simp [hi]))
  | pha | php =>
      rw [hi] at hr
      exact get_push_ne _ (List.ne_of_not_mem_cons hr) _
  | jsr =>
      rw [hi] at hr
      exact (get_with_pc _ _ _).trans (get_pushWord_ne _ (List.ne_of_not_mem_cons hr) _)
  | brk =>
      rw [hi] at hr
      exact get_breakProgram_ne _ (List.ne_of_not_mem_cons hr)
  | rts =>
      rw [hi] at hr
      show (m.past d).returnFromCall.get r = _
      rw [returnFromCall_eq]
      cases r with
      | sp => exact absurd List.mem_cons_self hr
      | _ => rfl
  | rti =>
      rw [hi] at hr
      show (m.past d).returnFromInterrupt.get r = _
      rw [returnFromInterrupt_eq]
      cases r with
      | sp => exact absurd List.mem_cons_self hr
      | _ => rfl
  | txs | plp =>
      rw [hi] at hr
      cases r with
      | sp => exact absurd List.mem_cons_self hr
      | _ => rfl
  | pla =>
      rw [hi] at hr
      cases r with
      | sp | a => exact absurd (by simp [Instruction.registers]) hr
      | _ => rfl
  | bcc | bcs | bne | beq | bpl | bmi | bvc | bvs =>
      obtain ⟨a, ha⟩ := exists_perform_branch (m.past d) d.operand _ _
      exact congrArg (fun m' => m'.get r) ha
  | _ => rfl

/-! ### Status bits outside the footprint -/

/-- **An instruction changes no status bit outside its footprint.** -/
theorem flag_perform_of_notMem (hd : decode m.bus m.pc m.x m.y = some d) {f : Flag}
    (hf : f ∉ d.instruction.flags) :
    ((m.past d).perform d.operand d.instruction.family).status.get f = m.status.get f := by
  have huse := usesOperand_perform hd
  unfold Decoded.UsesOperand at huse
  cases hi : d.instruction with
  | lda | ldx | ldy | and | ora | eor | tax | tay | txa | tya | tsx | inx | iny | dex | dey
  | pla =>
      rw [hi] at hf
      exact (congrArg (·.get f) (status_setResult _ _ _)).trans (Status.get_setZN_of_notMem _ hf _)
  | inc | dec =>
      rw [hi] at hf huse
      rcases huse with ⟨cell, -, hafter⟩ | ⟨-, hafter⟩
      · rw [hafter]
        exact Status.get_setZN_of_notMem _ hf _
      · rw [hafter]
        exact Status.get_setZN_of_notMem _ hf _
  | asl | lsr | rol | ror =>
      rw [hi] at hf huse
      rcases huse with ⟨cell, -, hafter⟩ | ⟨-, hafter⟩
      · rw [hafter]
        exact Status.get_setZN_carry_of_notMem _ hf _ _
      · rw [hafter]
        exact Status.get_setZN_carry_of_notMem _ hf _ _
  | cmp | cpx | cpy =>
      rw [hi] at hf
      exact Status.get_setZN_carry_of_notMem _ hf _ _
  | adc | sbc =>
      rw [hi] at hf
      cases f with
      | carry | zero | overflow | negative => exact absurd (by decide) hf
      | _ => rfl
  | bit =>
      rw [hi] at hf
      cases f with
      | zero | overflow | negative => exact absurd (by decide) hf
      | _ => rfl
  | clc | sec | cli | sei | cld | sed | clv | brk =>
      rw [hi] at hf
      exact Status.get_set_ne _ (List.ne_of_not_mem_cons hf).symm _
  | plp | rti =>
      rw [hi] at hf
      exact absurd (Flag.mem_all f) hf
  | bcc | bcs | bne | beq | bpl | bmi | bvc | bvs =>
      obtain ⟨a, ha⟩ := exists_perform_branch (m.past d) d.operand _ _
      exact congrArg (fun m' => m'.status.get f) ha
  | _ => rfl

/-! ### What the result decides -/

theorem operandValue_past (m : Machine σ) (d : Decoded) (operand : Operand) :
    (m.past d).operandValue operand = m.operandValue operand := by
  cases operand <;> rfl

/-- The program counter plays no part in a result. -/
theorem result_past (m : Machine σ) (d : Decoded) : d.result (m.past d) = d.result m := by
  unfold Decoded.result
  rw [operandValue_past]
  rfl

theorem shows_putResult (m : Machine σ) (s : Shifted) (operand : Operand) :
    (m.putResult s operand).status.Shows s.value := by
  show Status.Shows { (m.putOperand s.value operand).status.setZN s.value with
    carry := s.carry } s.value
  exact ⟨rfl, rfl⟩

/-- **Where an instruction lets a byte decide zero and negative, the byte is its result.** -/
theorem shows_perform (m : Machine σ) (d : Decoded) (hzero : Flag.zero ∈ d.instruction.flags)
    (hother : d.instruction ∉ [Instruction.bit, .plp, .rti]) :
    (m.perform d.operand d.instruction.family).status.Shows (d.result m) := by
  have hresult := d.result_of_family m
  cases hi : d.instruction with
  | asl | lsr | rol | ror | inc | dec =>
      rw [hi] at hresult
      replace hresult : d.result m = _ := hresult
      rw [hresult]
      exact shows_putResult _ _ _
  | lda | ldx | ldy | adc | sbc | and | ora | eor | cmp | cpx | cpy
  | tax | tay | txa | tya | tsx | inx | iny | dex | dey | pla =>
      rw [hi] at hresult
      replace hresult : d.result m = _ := hresult
      rw [hresult]
      exact ⟨rfl, rfl⟩
  | bit | plp | rti => exact absurd (by simp [hi]) hother
  | _ =>
      rw [hi] at hzero
      exact absurd hzero (by decide)

/-- **A register that an instruction changes takes its result**, the stack pointer apart. -/
theorem get_perform_of_mem (hd : decode m.bus m.pc m.x m.y = some d) {r : Register}
    (hr : r ∈ d.instruction.registers d.mode) (hsp : r ≠ .sp) :
    ((m.past d).perform d.operand d.instruction.family).get r = d.result m := by
  have hresult := d.result_of_family (m.past d)
  rw [← result_past m d]
  cases hi : d.instruction with
  | lda | ldx | ldy | and | ora | eor | tax | tay | txa | tya | tsx | inx | iny | dex | dey =>
      rw [hi] at hr hresult
      obtain rfl := List.mem_singleton.mp hr
      exact (get_setResult_self _ _ _).trans hresult.symm
  | adc | sbc =>
      rw [hi] at hr hresult
      obtain rfl := List.mem_singleton.mp hr
      exact hresult.symm
  | asl | lsr | rol | ror =>
      rw [hi] at hr hresult
      replace hr : r ∈ if d.mode = .accumulator then [Register.a] else [] := hr
      replace hresult : d.result (m.past d) = _ := hresult
      by_cases hmode : d.mode = .accumulator
      · rw [if_pos hmode] at hr
        obtain rfl := List.mem_singleton.mp hr
        rw [hresult, operand_of_accumulator hd hmode]
        rfl
      · rw [if_neg hmode] at hr
        exact absurd hr List.not_mem_nil
  | pla =>
      rw [hi] at hr hresult
      obtain rfl := List.mem_singleton.mp (List.mem_of_ne_of_mem hsp hr)
      exact hresult.symm
  | txs | pha | php | plp | jsr | rts | brk | rti =>
      rw [hi] at hr
      exact absurd (List.mem_singleton.mp hr) hsp
  | _ =>
      rw [hi] at hr
      exact absurd hr List.not_mem_nil

end Machine

/-! ### The tick and its footprint -/

namespace Cpu

variable {σ : Type} [Bus σ]

/--
**A fetch changes nothing outside the footprint of its instruction.**  On the tick of a
ready processor, a byte that names no instruction changes no register and no status bit;
an instruction changes at most the registers and the bits of its footprint.  Where it
decides zero and negative from a byte, which all but `BIT` and the two that pull the
status do, the byte is its result, and a register that it changes takes the result.
-/
theorem tick_footprint (c : Cpu σ) (hready : c.ready = true) :
    let m := c.machine
    let m' := c.tick.2.machine
    (decode m.bus m.pc m.x m.y = none → (∀ r, m'.get r = m.get r) ∧ m'.status = m.status) ∧
    ∀ d, decode m.bus m.pc m.x m.y = some d →
      (∀ r, r ∉ d.instruction.registers d.mode → m'.get r = m.get r) ∧
      (∀ f, f ∉ d.instruction.flags → m'.status.get f = m.status.get f) ∧
      (Flag.zero ∈ d.instruction.flags → Flag.negative ∈ d.instruction.flags →
        d.instruction ∉ [Instruction.bit, .plp, .rti] →
        (m'.status.zero = true ↔ d.result m = 0) ∧
        m'.status.negative = (d.result m).toNat.testBit 7) ∧
      ∀ r ∈ d.instruction.registers d.mode, r ≠ .sp → m'.get r = d.result m := by
  intro m m'
  refine ⟨?_, ?_⟩
  · intro hnone
    have hm' : m' = { m with pc := m.pc + 1 } :=
      congrArg (·.2.machine) (tick_of_decode_none hready hnone)
    rw [hm']
    exact ⟨fun r => Machine.get_with_pc m _ r, rfl⟩
  · intro d hd
    have hm' : m' = (m.past d).perform d.operand d.instruction.family :=
      congrArg (·.2.machine) (tick_of_fetches ⟨hready, hd⟩)
    rw [hm']
    refine ⟨?_, ?_, ?_, ?_⟩
    · intro r hr
      exact Machine.get_perform_of_notMem hd hr
    · intro f hf
      exact Machine.flag_perform_of_notMem hd hf
    · intro hzero _ hother
      obtain ⟨hz, hn⟩ := Machine.shows_perform (m.past d) d hzero hother
      rw [Machine.result_past] at hz hn
      rw [hz, hn, ← signBit_eq_testBit]
      exact ⟨beq_iff_eq, rfl⟩
    · intro r hr hsp
      exact Machine.get_perform_of_mem hd hr hsp

/-- A processor about to pull a negative byte from around the end of the stack page. -/
def pulling : Cpu Memory where
  machine := { Machine.blank ((Memory.zero.set 0x0200 0x68).set 0x0100 0x80) with
    pc := 0x0200, sp := 0xFF, y := 7 }
  remaining := 0
  cycles := 0

theorem decode_pulling :
    decode pulling.machine.bus 0x0200 0 7 = some
      { address := 0x0200, opcode := 0x68, instruction := .pla, mode := .implied
        operandBytes := [], operand := .none, cycles := 4 } := by
  have hlookup : Opcode.lookup 0x68 = some ⟨.pla, .implied, 4⟩ := by decide +kernel
  simp [decode, pulling, Machine.blank, Memory.get_set, hlookup, Bus.readBytes, resolve,
    AddressingMode.operandLength]

/-- A pull takes its byte, which decides the signs, and leaves index registers and carry. -/
theorem tick_footprint_pulling :
    pulling.ready = true ∧ pulling.tick.2.machine.a = 0x80 ∧ pulling.tick.2.machine.y = 7 ∧
      pulling.tick.2.machine.status.negative = true ∧
      ¬ pulling.tick.2.machine.status.zero = true ∧
      pulling.tick.2.machine.status.carry = false := by
  obtain ⟨-, hsome⟩ := tick_footprint pulling rfl
  obtain ⟨hregisters, hflags, hdecided, htaken⟩ := hsome _ decode_pulling
  obtain ⟨hzero, hnegative⟩ := hdecided (by decide) (by decide) (by decide)
  have hresult : Decoded.result ⟨0x0200, 0x68, .pla, .implied, [], .none, 4⟩ pulling.machine =
      0x80 := by
    simp [Decoded.result, pulling, Machine.blank]
  rw [hresult] at hzero hnegative htaken
  refine ⟨rfl, htaken .a (by decide) (by decide), hregisters .y (by decide), ?_, ?_,
    hflags .carry (by decide)⟩
  · rw [hnegative]
    decide
  · rw [hzero]
    decide

end Cpu

end Nmos6502
