/-
The decoder and the processor agree.

Decoding walks a cursor of its own and reads the operand bytes a second time; fetching
walks the live program counter through one of many handlers.  `step_of_decode` says
that both see the same instruction: a fetch performs what decoding the memory before
it says, on the operand that decoding resolved, with the program counter behind the
bytes that decoding counted.  What the instruction then writes plays no part, even
where it is the instruction itself.

`Decoded.GoesOn` and `Decoded.UsesOperand` are what a reader of a listing expects of a
line, where execution goes from it and which cell it works on.
-/
import Nmos6502.Cpu
import Nmos6502.Memory
import Nmos6502.Proofs.Family

namespace Nmos6502

section

variable {σ : Type} [Bus σ]

/-! ### What decoding reads -/

theorem decode_eq_none_iff {bus : σ} {a : Address} {x y : Byte} :
    decode bus a x y = none ↔ Opcode.lookup (Bus.read bus a) = none := by
  unfold decode
  rw [Option.map_eq_none_iff]

/-- A decoded instruction is an entry of the opcode table with the bytes behind its opcode. -/
theorem exists_entry_of_decode {bus : σ} {a : Address} {x y : Byte} {d : Decoded}
    (h : decode bus a x y = some d) :
    ∃ entry, Opcode.lookup (Bus.read bus a) = some entry ∧
      d = { address := a
            opcode := Bus.read bus a
            instruction := entry.instruction
            mode := entry.mode
            operandBytes := Bus.readBytes bus (a + 1) entry.mode.operandLength
            operand := (resolve bus entry.mode (a + 1) x y).1
            cycles := entry.cycles } := by
  unfold decode at h
  obtain ⟨entry, hentry, hd⟩ := Option.map_eq_some_iff.mp h
  exact ⟨entry, hentry, hd.symm⟩

/-- Whether an instruction is found, and which, hangs on the opcode alone. -/
theorem exists_decode_of_lookup {bus : σ} {a : Address} (x y : Byte) {entry : Opcode}
    (h : Opcode.lookup (Bus.read bus a) = some entry) :
    ∃ d, decode bus a x y = some d ∧ d.instruction = entry.instruction ∧ d.mode = entry.mode :=
  ⟨_, Option.map_eq_some_iff.mpr ⟨entry, h, rfl⟩, rfl, rfl⟩

/-- A decoded instruction finds its operand by a mode that its family can use. -/
theorem fits_of_decode {bus : σ} {a : Address} {x y : Byte} {d : Decoded}
    (h : decode bus a x y = some d) : d.instruction.family.fits d.mode = true := by
  obtain ⟨entry, hentry, rfl⟩ := exists_entry_of_decode h
  exact Opcode.fits_of_lookup hentry

theorem operand_of_decode {bus : σ} {a : Address} {x y : Byte} {d : Decoded}
    (h : decode bus a x y = some d) : d.operand = (resolve bus d.mode (a + 1) x y).1 := by
  obtain ⟨entry, -, rfl⟩ := exists_entry_of_decode h
  rfl

theorem operandBytes_of_decode {bus : σ} {a : Address} {x y : Byte} {d : Decoded}
    (h : decode bus a x y = some d) :
    d.operandBytes = Bus.readBytes bus (a + 1) d.mode.operandLength := by
  obtain ⟨entry, -, rfl⟩ := exists_entry_of_decode h
  rfl

theorem opcode_of_decode {bus : σ} {a : Address} {x y : Byte} {d : Decoded}
    (h : decode bus a x y = some d) : d.opcode = Bus.read bus a := by
  obtain ⟨entry, -, rfl⟩ := exists_entry_of_decode h
  rfl

theorem address_of_decode {bus : σ} {a : Address} {x y : Byte} {d : Decoded}
    (h : decode bus a x y = some d) : d.address = a := by
  obtain ⟨entry, -, rfl⟩ := exists_entry_of_decode h
  rfl

theorem size_of_decode {bus : σ} {a : Address} {x y : Byte} {d : Decoded}
    (h : decode bus a x y = some d) : d.size = 1 + d.mode.operandLength := by
  rw [Decoded.size, operandBytes_of_decode h, Bus.length_readBytes]

theorem operand_of_relative {bus : σ} {a : Address} {x y : Byte} {d : Decoded}
    (h : decode bus a x y = some d) (hmode : d.mode = .relative) :
    d.operand = .offset (signExtend (Bus.read bus (a + 1))) := by
  rw [operand_of_decode h, hmode]
  rfl

/-- Where the mode names a cell, decoding resolves it to an address. -/
theorem exists_address_of_decode {bus : σ} {a : Address} {x y : Byte} {d : Decoded}
    (h : decode bus a x y = some d) (hmode : d.mode.namesCell = true) :
    ∃ cell, d.operand = .address cell := by
  rw [operand_of_decode h]
  exact exists_address_of_namesCell hmode bus (a + 1) x y

end

/-! ### A fetch performs what decoding says -/

namespace Machine

variable {σ : Type}

/-- The machine with its program counter behind an instruction. -/
def past (m : Machine σ) (d : Decoded) : Machine σ := { m with pc := m.pc + UInt16.ofNat d.size }

theorem get_past (m : Machine σ) (d : Decoded) (r : Register) : (m.past d).get r = m.get r := by
  cases r <;> rfl

variable [Bus σ]

/-- **Fetching is decoding, moving behind the instruction and performing it.** -/
theorem step_of_decode {m : Machine σ} {d : Decoded}
    (h : decode m.bus m.pc m.x m.y = some d) :
    m.step = (.ok d.cycles, (m.past d).perform d.operand d.instruction.family) := by
  have hsize := size_of_decode h
  obtain ⟨entry, hentry, hd⟩ := exists_entry_of_decode h
  have hpast : ({ m with pc := m.pc + 1 + UInt16.ofNat entry.mode.operandLength } : Machine σ) =
      m.past d := by
    rw [past, hsize, UInt16.ofNat_add, ← UInt16.add_assoc, hd]
    rfl
  rw [step_of_defined hentry, execute_eq_perform _ (Opcode.fits_of_lookup hentry)]
  show (_, Machine.perform _ _ _) = _
  rw [hpast, hd]

theorem step_of_decode_none {m : Machine σ} (h : decode m.bus m.pc m.x m.y = none) :
    m.step = (.error ⟨Bus.read m.bus m.pc, m.pc⟩, { m with pc := m.pc + 1 }) :=
  step_of_undefined (decode_eq_none_iff.mp h)

/-- Behind a call, the address of its last byte is that of the call and two. -/
theorem pc_past_of_call {m : Machine σ} {d : Decoded} (hd : decode m.bus m.pc m.x m.y = some d)
    (hfam : d.instruction.family = .call) : (m.past d).pc - 1 = m.pc + 2 := by
  have hfits := fits_of_decode hd
  rw [hfam] at hfits
  rw [past, size_of_decode hd, eq_of_beq hfits]
  show m.pc + 3 - 1 = m.pc + 2
  rw [UInt16.sub_eq_add_neg, UInt16.add_assoc]
  rfl

/-- `BRK` takes one byte and skips another. -/
theorem pc_past_of_breakProgram {m : Machine σ} {d : Decoded}
    (hd : decode m.bus m.pc m.x m.y = some d) (hfam : d.instruction.family = .breakProgram) :
    (m.past d).pc + 1 = m.pc + 2 := by
  have hfits := fits_of_decode hd
  rw [hfam] at hfits
  rw [past, size_of_decode hd, eq_of_beq hfits]
  exact UInt16.add_assoc _ _ _

end Machine

namespace Cpu

variable {σ : Type} [Bus σ]

/-- The next tick executes this instruction. -/
structure Fetches (c : Cpu σ) (d : Decoded) : Prop where
  ready : c.ready = true
  found : decode c.machine.bus c.machine.pc c.machine.x c.machine.y = some d

/-- A processor is busy, or finds a byte that names no instruction, or fetches one. -/
theorem busy_or_fetches (c : Cpu σ) :
    c.ready = false ∨
      (c.ready = true ∧ decode c.machine.bus c.machine.pc c.machine.x c.machine.y = none) ∨
      ∃ d, c.Fetches d := by
  cases hready : c.ready with
  | false => exact Or.inl rfl
  | true =>
      cases hd : decode c.machine.bus c.machine.pc c.machine.x c.machine.y with
      | none => exact Or.inr (Or.inl ⟨rfl, rfl⟩)
      | some d => exact Or.inr (Or.inr ⟨d, hready, hd⟩)

theorem tick_of_fetches {c : Cpu σ} {d : Decoded} (h : c.Fetches d) :
    c.tick = (none,
      { machine := (c.machine.past d).perform d.operand d.instruction.family
        remaining := d.cycles
        cycles := c.cycles + 1 }) := by
  rw [tick_of_ready h.ready, fetch, Machine.step_of_decode h.found]

theorem Fetches.unique {c : Cpu σ} {d e : Decoded} (hd : c.Fetches d) (he : c.Fetches e) :
    d = e :=
  Option.some.inj (hd.found.symm.trans he.found)

/-- A ready processor fetches what the table says of the byte at the program counter. -/
theorem exists_fetches_of_lookup {c : Cpu σ} {entry : Opcode} (hready : c.ready = true)
    (h : Opcode.lookup (Bus.read c.machine.bus c.machine.pc) = some entry) :
    ∃ d, c.Fetches d ∧ d.instruction = entry.instruction := by
  obtain ⟨d, hd, hinstruction, -⟩ := exists_decode_of_lookup c.machine.x c.machine.y h
  exact ⟨d, ⟨hready, hd⟩, hinstruction⟩

/-- The tick on which a ready processor finds a byte that names no instruction. -/
theorem tick_of_decode_none {c : Cpu σ} (hready : c.ready = true)
    (h : decode c.machine.bus c.machine.pc c.machine.x c.machine.y = none) :
    c.tick = (some ⟨Bus.read c.machine.bus c.machine.pc, c.machine.pc⟩,
      { machine := { c.machine with pc := c.machine.pc + 1 }
        remaining := c.remaining
        cycles := c.cycles + 1 }) := by
  have hzero : c.remaining = 0 := eq_of_beq hready
  rw [tick_of_ready hready, fetch, Machine.step_of_decode_none h, hzero]

/-- Stepping executes the instruction and waits until its cost is counted down. -/
theorem stepInstruction_of_fetches {c : Cpu σ} {d : Decoded} (h : c.Fetches d) :
    c.stepInstruction = (none,
      { machine := (c.machine.past d).perform d.operand d.instruction.family
        remaining := 0
        cycles := c.cycles + 1 + d.cycles.toUInt64 }) :=
  stepInstruction_of_step h.ready (Machine.step_of_decode h.found)

/-- Stepping over a byte that names no instruction is the one tick that reports it. -/
theorem stepInstruction_of_decode_none {c : Cpu σ} (hready : c.ready = true)
    (h : decode c.machine.bus c.machine.pc c.machine.x c.machine.y = none) :
    c.stepInstruction = (some ⟨Bus.read c.machine.bus c.machine.pc, c.machine.pc⟩,
      { machine := { c.machine with pc := c.machine.pc + 1 }
        remaining := c.remaining
        cycles := c.cycles + 1 }) := by
  rw [stepInstruction, tick_of_decode_none hready h]

end Cpu

/-! ### Where execution goes from an instruction -/

/-- The word that lies above a stack pointer, low byte first. -/
def stackWord {σ : Type} [Bus σ] (bus : σ) (sp : Byte) : Address :=
  wordOf (Bus.read bus (Machine.stackCell (sp + 1))) (Bus.read bus (Machine.stackCell (sp + 2)))

namespace Decoded

variable {σ : Type} [Bus σ]

/--
Where execution goes from a decoded instruction, `m` being the machine before it and
`m'` the machine after it.  `BRK` reads its vector after its pushes, so the word is the
one on the bus that it leaves.
-/
def GoesOn (d : Decoded) (m m' : Machine σ) : Prop :=
  match d.instruction.family with
  | .branch f on =>
      if m.status.get f = on then d.branchTarget = some m'.pc
      else m'.pc = m.pc + UInt16.ofNat d.size
  | .jump | .call => d.operand = .address m'.pc
  | .returnFromCall => m'.pc = stackWord m.bus m.sp + 1
  | .returnFromInterrupt => m'.pc = stackWord m.bus (m.sp + 1)
  | .breakProgram => m'.pc = Bus.readWord m'.bus irqVector
  | _ => m'.pc = m.pc + UInt16.ofNat d.size

/--
What a decoded instruction does with the cell that its operand names, `m` being the
machine before it and `m'` the machine after it.
-/
def UsesOperand (d : Decoded) (m m' : Machine σ) : Prop :=
  match d.instruction.family with
  | .load _ | .accumulate _ | .combine _ | .compare _ | .bitTest =>
      ∃ cell, d.operand = .address cell ∧
        m' = (m.past d).consume (Bus.read m.bus cell) d.instruction.family
  | .store r => ∃ cell, d.operand = .address cell ∧ m' = (m.past d).write cell (m.get r)
  | .modify op =>
      (∃ cell, d.operand = .address cell ∧
        let s := op (Bus.read m.bus cell) m.status.carry
        m' = { m.past d with
          bus := Bus.write m.bus cell s.value
          status := { m.status.setZN s.value with carry := s.carry } }) ∨
      (d.operand = .accumulator ∧
        let s := op m.a m.status.carry
        m' = { m.past d with
          a := s.value
          status := { m.status.setZN s.value with carry := s.carry } })
  | _ => True

end Decoded

namespace Machine

variable {σ : Type} [Bus σ]

/-- Pulling a word reads the two cells above the stack pointer and moves behind them. -/
theorem pullWord_eq (m : Machine σ) :
    m.pullWord = (stackWord m.bus m.sp, { m with sp := m.sp + 2 }) := by
  have hsp : m.sp + 1 + 1 = m.sp + 2 := UInt8.add_assoc _ _ _
  rw [← hsp, stackWord, ← hsp]
  rfl

/-- A branch goes to the target that decoding gives, or past itself. -/
theorem goesOn_branch {m : Machine σ} {d : Decoded} {f : Flag} {on : Bool}
    (hd : decode m.bus m.pc m.x m.y = some d) (hmode : d.mode = .relative) :
    if m.status.get f = on then
      d.branchTarget = some ((m.past d).perform d.operand (.branch f on)).pc
    else ((m.past d).perform d.operand (.branch f on)).pc = m.pc + UInt16.ofNat d.size := by
  have hoperand := operand_of_relative hd hmode
  have hstatus : (m.past d).status = m.status := rfl
  by_cases htaken : m.status.get f = on
  · rw [if_pos htaken]
    simp only [Decoded.branchTarget, perform, hoperand, hstatus, htaken, beq_self_eq_true, if_true,
      address_of_decode hd]
    rfl
  · rw [if_neg htaken]
    simp only [perform, hoperand, hstatus, beq_iff_eq, htaken, if_false]
    rfl

/-- **Execution goes where decoding says.** -/
theorem goesOn_perform {m : Machine σ} {d : Decoded} (hd : decode m.bus m.pc m.x m.y = some d) :
    d.GoesOn m ((m.past d).perform d.operand d.instruction.family) := by
  have hfits := fits_of_decode hd
  unfold Decoded.GoesOn
  cases hfam : d.instruction.family with
  | branch f on =>
      rw [hfam] at hfits
      exact goesOn_branch hd (eq_of_beq hfits)
  | jump =>
      rw [hfam] at hfits
      obtain ⟨cell, hcell⟩ := exists_address_of_decode hd (Family.namesCell_of_fits_jump hfits)
      rw [hcell]
      rfl
  | call =>
      rw [hfam] at hfits
      obtain ⟨cell, hcell⟩ := exists_address_of_decode hd (Family.namesCell_of_fits_call hfits)
      rw [hcell]
      rfl
  | returnFromCall =>
      show (m.past d).returnFromCall.pc = _
      rw [returnFromCall, pullWord_eq]
      rfl
  | returnFromInterrupt =>
      show (m.past d).returnFromInterrupt.pc = _
      rw [returnFromInterrupt, pullWord_eq]
      rfl
  | load r | accumulate sum | combine op | compare r | bitTest => exact pc_consume _ _ _
  | modify op => exact pc_putOperand _ _ _
  | transfer source target => exact pc_setResult _ _ _
  | adjustRegister r delta => exact pc_setResult _ _ _
  | _ => rfl

/-- **Execution works on the cell that decoding names.** -/
theorem usesOperand_perform {m : Machine σ} {d : Decoded}
    (hd : decode m.bus m.pc m.x m.y = some d) :
    d.UsesOperand m ((m.past d).perform d.operand d.instruction.family) := by
  have hfits := fits_of_decode hd
  unfold Decoded.UsesOperand
  cases hfam : d.instruction.family with
  | load r | accumulate sum | combine op | compare r | bitTest =>
      rw [hfam] at hfits
      obtain ⟨cell, hcell⟩ := exists_address_of_decode hd hfits
      refine ⟨cell, hcell, ?_⟩
      rw [hcell]
      rfl
  | store r =>
      rw [hfam] at hfits
      obtain ⟨cell, hcell⟩ := exists_address_of_decode hd (Bool.and_eq_true_iff.mp hfits).1
      refine ⟨cell, hcell, ?_⟩
      rw [hcell, ← get_past m d r]
      rfl
  | modify op =>
      rw [hfam] at hfits
      rcases Bool.or_eq_true_iff.mp hfits with hacc | hmem
      · have hoperand : d.operand = .accumulator := by
          rw [operand_of_decode hd, eq_of_beq hacc]
          rfl
        refine Or.inr ⟨hoperand, ?_⟩
        rw [hoperand]
        rfl
      · obtain ⟨cell, hcell⟩ := exists_address_of_decode hd (Bool.and_eq_true_iff.mp hmem).1
        refine Or.inl ⟨cell, hcell, ?_⟩
        rw [hcell]
        rfl
  | _ => trivial

end Machine

/-! ### The tick and the decoder -/

namespace Cpu

variable {σ : Type} [Bus σ]

theorem Fetches.usesOperand {c : Cpu σ} {d : Decoded} (hd : c.Fetches d) :
    d.UsesOperand c.machine c.tick.2.machine := by
  rw [tick_of_fetches hd]
  exact Machine.usesOperand_perform hd.found

/--
**Decoding tells what the next fetch does.**  Before the tick of a ready processor,
decoding at the program counter finds nothing exactly when the tick reports the byte
there, and then the tick only counts and steps over it.  If decoding finds an
instruction, the tick takes its cost, goes where it says and works on the cell that it
names.
-/
theorem tick_agrees_with_decode (c : Cpu σ) (hready : c.ready = true) :
    let m := c.machine
    let found := decode m.bus m.pc m.x m.y
    (found = none ↔ c.tick.1 = some ⟨Bus.read m.bus m.pc, m.pc⟩) ∧
    (found = none → c.tick.2 = { c with
      machine := { m with pc := m.pc + 1 }, cycles := c.cycles + 1 }) ∧
    ∀ d, found = some d →
      c.tick.1 = none ∧ c.tick.2.remaining = d.cycles ∧
      d.GoesOn m c.tick.2.machine ∧ d.UsesOperand m c.tick.2.machine := by
  intro m found
  refine ⟨⟨?_, ?_⟩, ?_, ?_⟩
  · intro hnone
    rw [tick_of_decode_none hready hnone]
  · intro herror
    cases hfound : found with
    | none => rfl
    | some d =>
        rw [tick_of_fetches ⟨hready, hfound⟩] at herror
        exact absurd herror (by simp)
  · intro hnone
    rw [tick_of_decode_none hready hnone]
  · intro d hd
    rw [tick_of_fetches ⟨hready, hd⟩]
    exact ⟨rfl, rfl, Machine.goesOn_perform hd, Machine.usesOperand_perform hd⟩

/-- A processor about to run `INC $FFFE`, whose bytes lie around the end of memory. -/
def selfIncrement : Cpu Memory where
  machine := { Machine.blank (Memory.zero.load [0xEE, 0xFE, 0xFF] 0xFFFE) with pc := 0xFFFE }
  remaining := 0
  cycles := 0

theorem decode_selfIncrement :
    decode selfIncrement.machine.bus 0xFFFE 0 0 = some
      { address := 0xFFFE, opcode := 0xEE, instruction := .inc, mode := .absolute
        operandBytes := [0xFE, 0xFF], operand := .address 0xFFFE, cycles := 6 } := by
  have hlookup : Opcode.lookup 0xEE = some ⟨.inc, .absolute, 6⟩ := by decide +kernel
  simp [decode, selfIncrement, Machine.blank, Memory.get_set, hlookup, Bus.readBytes, resolve,
    fetchWord, fetchByte, AddressingMode.operandLength, List.range_succ, wordOf]

/-- The write that lands on the opcode is the one that was decoded before it. -/
theorem tick_agrees_with_decode_selfIncrement :
    selfIncrement.ready = true ∧ selfIncrement.tick.1 = none ∧
      selfIncrement.tick.2.remaining = 6 ∧ selfIncrement.tick.2.machine.pc = 1 ∧
      selfIncrement.tick.2.machine.bus.get 0xFFFE = 0xEF := by
  obtain ⟨-, -, hsome⟩ := tick_agrees_with_decode selfIncrement rfl
  obtain ⟨herror, hcost, hpc, huse⟩ := hsome _ decode_selfIncrement
  refine ⟨rfl, herror, hcost, hpc, ?_⟩
  obtain ⟨cell, hcell, hafter⟩ | ⟨hacc, -⟩ := huse
  · obtain rfl := Operand.address.inj hcell
    rw [hafter]
    simp [Memory.get_set, selfIncrement, Machine.blank]
  · exact absurd hacc (by decide)

end Cpu

end Nmos6502
