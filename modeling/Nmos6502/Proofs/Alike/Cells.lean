/-
A tick depends on the cells that it looks at.

Two memories that agree in those cells may differ in all the others: the same instruction
is found, with the same operand, and what it reads of the operand, of the stack or of a
vector is the same.  So the tick does the same on both, `tick_depends_on_reads`.  This is
`Cpu.Alike.tick` where the relation between the two memories is that they agree in every
cell in which they agreed before.  That relation is kept by every write, for a cell that
is written holds the same byte in both afterwards.
-/
import Nmos6502.Proofs.Alike.Buses

namespace Nmos6502

/-- Two memories hold the same bytes in these cells. -/
def Memory.AgreeOn (cells : Address → Prop) (m n : Memory) : Prop :=
  ∀ a, cells a → m.get a = n.get a

theorem Memory.bisimulationOn (cells : Address → Prop) :
    Bus.BisimulationOn cells (Memory.AgreeOn cells) where
  read h a ha := h a ha
  write h a v := by
    intro b hb
    rw [write_eq, write_eq, get_set, get_set, h b hb]

namespace Cpu

section

variable {σ τ : Type} [Bus σ] [Bus τ]

/-- A processor wired to a bus that is read alike where its next tick looks. -/
theorem exists_tick_wiredTo {cells : Address → Prop} {R : σ → τ → Prop}
    (hR : Bus.BisimulationOn cells R) (c : Cpu σ) {bus : τ} (hbus : R c.machine.bus bus)
    (hcells : ∀ a ∈ c.reads, cells a) :
    ∃ bus', R c.tick.2.machine.bus bus' ∧
      (c.wiredTo bus).tick = (c.tick.1, c.tick.2.wiredTo bus') := by
  obtain ⟨herror, hafter⟩ :=
    (c.alike_wiredTo hbus).tick hR (fun _ _ f _ => Flag.mem_all f) hcells
  refine ⟨(c.wiredTo bus).tick.2.machine.bus, hafter.machine.bus, ?_⟩
  rw [← hafter.eq_wiredTo, herror]

theorem exists_tick_wiredTo_start (c : Cpu σ) :
    ∃ writes, (c.wiredTo (Recorded.start c.machine.bus)).tick =
      (c.tick.1, c.tick.2.wiredTo ⟨c.tick.2.machine.bus, writes⟩) := by
  set recording := c.wiredTo (Recorded.start c.machine.bus)
  have hbehind : recording.machine.bus.bus = c.machine.bus := rfl
  obtain ⟨bus, rfl, htick⟩ :=
    exists_tick_wiredTo Recorded.bisimulation.everywhere recording hbehind fun _ _ => trivial
  replace htick : c.tick = (recording.tick.1, _) := htick
  refine ⟨recording.tick.2.machine.bus.writes, ?_⟩
  rw [htick]
  rfl

end

/--
**A tick depends on the cells that it looks at, and on no other.**  Put another memory in
place of a processor's, with the same bytes in those cells: the opcode and the bytes
behind it, the pointer of an indirect mode, the operand of an instruction that does more
than write it, what a pull or a return finds on the stack, and the vector of `BRK`.  The
tick then has the same outcome and leaves the same registers, status and counters; had
both memories recorded, one record would tell the writes of both; and afterwards the
memories differ at most where they differed before.
-/
theorem tick_depends_on_reads (c : Cpu Memory) (memory : Memory)
    (hagree : ∀ a ∈ c.reads, c.machine.bus.get a = memory.get a) :
    ∃ memory' writes,
      (c.wiredTo memory).tick = (c.tick.1, c.tick.2.wiredTo memory') ∧
      (c.wiredTo (Recorded.start c.machine.bus)).tick =
        (c.tick.1, c.tick.2.wiredTo ⟨c.tick.2.machine.bus, writes⟩) ∧
      (c.wiredTo (Recorded.start memory)).tick =
        (c.tick.1, c.tick.2.wiredTo ⟨memory', writes⟩) ∧
      ∀ a, c.tick.2.machine.bus.get a ≠ memory'.get a →
        c.machine.bus.get a ≠ memory.get a := by
  have hR := Memory.bisimulationOn fun a => c.machine.bus.get a = memory.get a
  have hbus : Memory.AgreeOn (fun a => c.machine.bus.get a = memory.get a) c.machine.bus memory :=
    fun _ ha => ha
  obtain ⟨memory', hafter, hwired⟩ := exists_tick_wiredTo hR c hbus hagree
  obtain ⟨writes, hwrites⟩ := c.exists_tick_wiredTo_start
  obtain ⟨writes', hwrites'⟩ := (c.wiredTo memory).exists_tick_wiredTo_start
  -- The two records are those of one tick on two memories that record.
  have hstart : Memory.AgreeOn (fun a => c.machine.bus.get a = memory.get a)
        (Recorded.start c.machine.bus).bus (Recorded.start memory).bus ∧
      (Recorded.start c.machine.bus).writes = (Recorded.start memory).writes := ⟨hbus, rfl⟩
  obtain ⟨r, ⟨-, hrecord⟩, hboth⟩ :=
    exists_tick_wiredTo hR.recorded (c.wiredTo (Recorded.start c.machine.bus)) hstart hagree
  rw [hwired] at hwrites'
  rw [hwrites] at hrecord hboth
  have hr : r = ⟨memory', writes'⟩ := congrArg (·.2.machine.bus) (hboth.symm.trans hwrites')
  have hsame : writes = writes' := hrecord.trans (congrArg Recorded.writes hr)
  refine ⟨memory', writes, hwired, hwrites, ?_, fun a hdiffer hsame => hdiffer (hafter a hsame)⟩
  rw [hsame]
  exact hwrites'

/--
A processor about to load through a pointer whose high byte is around the end of page
zero, and go on from the cell that the pointer names to the next page.
-/
def wrappingPointer : Cpu Memory where
  machine := { Machine.blank
      (((((Memory.zero.set 0x0200 0xB1).set 0x0201 0xFF).set 0x00FF 0xFE).set 0x0000 0x03).set
        0x0403 0x2A) with
    pc := 0x0200, y := 0x05 }
  remaining := 0
  cycles := 0

/-- It looks at five cells, and that behind page zero is none of them. -/
theorem tick_depends_on_reads_wrappingPointer :
    wrappingPointer.reads = [0x0200, 0x0201, 0x00FF, 0x0000, 0x0403] ∧
    wrappingPointer.tick.2.machine.a = 0x2A ∧
    ∀ v : Byte, ∃ memory writes,
      (wrappingPointer.wiredTo (wrappingPointer.machine.bus.set 0x0100 v)).tick =
        (none, wrappingPointer.tick.2.wiredTo memory) ∧
      (wrappingPointer.wiredTo
          (Recorded.start (wrappingPointer.machine.bus.set 0x0100 v))).tick =
        (none, wrappingPointer.tick.2.wiredTo ⟨memory, writes⟩) := by
  have hlookup : Opcode.lookup 0xB1 = some ⟨.lda, .indirectY, 5⟩ := by decide +kernel
  have hcells : wrappingPointer.machine.bus.get 0x0200 = 0xB1 ∧
      wrappingPointer.machine.bus.get 0x0201 = 0xFF ∧
      wrappingPointer.machine.bus.get 0x00FF = 0xFE ∧
      wrappingPointer.machine.bus.get 0x0000 = 0x03 ∧
      wrappingPointer.machine.bus.get 0x0403 = 0x2A := by
    simp [wrappingPointer, Machine.blank, Memory.get_set]
  obtain ⟨hopcode, hpointer, hlow, hhigh, hvalue⟩ := hcells
  have hfetch : wrappingPointer.Fetches
      ⟨0x0200, 0xB1, .lda, .indirectY, [0xFF], .address 0x0403, 5⟩ := by
    refine ⟨rfl, ?_⟩
    show decode wrappingPointer.machine.bus 0x0200 0x00 0x05 = _
    simp [decode, hopcode, hlookup, resolve, fetchByte, Bus.readBytes, Bus.readZeroPageWord,
      AddressingMode.operandLength, hpointer, hlow, hhigh]
    decide
  have hreads : wrappingPointer.reads = [0x0200, 0x0201, 0x00FF, 0x0000, 0x0403] := by
    have hdecoded : decodeCells wrappingPointer.machine.bus 0x0200 0x00 =
        [0x0200, 0x0201, 0x00FF, 0x0000] := by
      simp [decodeCells, hopcode, hlookup, pointerCells, pointerInZeroPage, cellsFrom,
        AddressingMode.operandLength, hpointer]
    show (if wrappingPointer.ready then decodeCells wrappingPointer.machine.bus 0x0200 0x00 ++ _
      else []) = _
    rw [if_pos hfetch.ready, hdecoded, hfetch.found]
    rfl
  have htick := tick_of_fetches hfetch
  refine ⟨hreads, ?_, ?_⟩
  · rw [htick]
    exact hvalue
  · intro v
    have hagree : ∀ a ∈ wrappingPointer.reads,
        wrappingPointer.machine.bus.get a = (wrappingPointer.machine.bus.set 0x0100 v).get a := by
      rw [hreads]
      intro a ha
      refine (Memory.get_set_ne _ ?_ v).symm
      rintro rfl
      exact absurd ha (by decide)
    obtain ⟨memory, writes, hwired, -, hrecorded, -⟩ :=
      tick_depends_on_reads wrappingPointer _ hagree
    rw [htick] at hwired hrecorded ⊢
    exact ⟨memory, writes, hwired, hrecorded⟩

end Cpu

end Nmos6502
