/-
A program that interrupts itself.

`BRK` and the maskable interrupt line are two ways into one handler.  Either puts a return
address and a status on the stack, in that order, and goes through the same vector;
`Machine.enterHandler` is what they share.  They differ in the address, which `BRK` takes
behind its padding byte, and in bit 4 of the status, which is there only to tell them apart.

So `BRK` is the line pulled behind the padding with interrupts enabled, but for that bit in
the stack.  The vector is read after the pushes, and in plain memory it is not in their way.
-/
import Nmos6502.Proofs.Result
import Nmos6502.Proofs.Stack.Ring

namespace Nmos6502

/-! ### One flag assigned by the host -/

/-- Assigning a mask of one flag is setting the flag. -/
theorem Status.forceUnused_assign_flag {s : Status} (hunused : s.unused = true) {f : Flag}
    (hf : f ≠ .unused) (on : Bool) :
    (s.assign (none.set f true) on).forceUnused = s.set f on := by
  have hassigned : s.assign (none.set f true) on = s.set f on := by
    refine Status.ext_get fun g => ?_
    rw [get_assign]
    by_cases hg : f = g
    · rw [hg, get_set_self, get_set_self, if_pos rfl]
    · have hnone : none.get g = false := by cases g <;> rfl
      rw [get_set_ne _ hg, get_set_ne _ hg, hnone, if_neg Bool.false_ne_true]
  rw [hassigned]
  cases f with
  | unused => exact absurd rfl hf
  | _ =>
      obtain ⟨c, z, i, d, b, u, v, n⟩ := s
      obtain rfl : u = true := hunused
      rfl

/-- The bit that always reads as one is in the byte. -/
theorem Status.toByte_or_unused {s : Status} (hunused : s.unused = true) :
    s.toByte ||| 0x20 = s.toByte := by
  have h : ∀ c z i d b v n : Bool,
      toByte ⟨c, z, i, d, b, true, v, n⟩ ||| 0x20 = toByte ⟨c, z, i, d, b, true, v, n⟩ := by
    decide +kernel
  obtain ⟨c, z, i, d, b, u, v, n⟩ := s
  obtain rfl : u = true := hunused
  exact h c z i d b v n

/-! ### Into the handler -/

namespace Machine

/-- Leaves an address and a status on the stack and goes through the vector of the handler. -/
def enterHandler {σ : Type} [Bus σ] (m : Machine σ) (back : Address) (status : Byte) : Machine σ :=
  ((m.pushWord back).push status).goThrough irqVector

/-- A write to the stack leaves the vectors alone. -/
theorem readWord_set_stackCell (memory : Memory) (p v : Byte) :
    Bus.readWord (memory.set (stackCell p) v) irqVector = Bus.readWord memory irqVector := by
  have hcell : ∀ a, (0x0200 : Address) ≤ a → stackCell p ≠ a := by
    rintro a ha rfl
    have hlow := UInt16.le_iff_toNat_le.mp ha
    have hp := p.toNat_lt
    rw [toNat_stackCell] at hlow
    exact absurd hlow (by simp; omega)
  rw [Bus.readWord, Bus.readWord]
  simp only [Memory.read_eq]
  rw [Memory.get_set_ne _ (hcell _ (by decide)), Memory.get_set_ne _ (hcell _ (by decide))]

/-- What entering the handler leaves, three cells below the stack pointer written in turn. -/
theorem enterHandler_eq (m : Machine Memory) (back : Address) (status : Byte) :
    m.enterHandler back status =
      { m with
        sp := m.sp - 3
        pc := Bus.readWord m.bus irqVector
        bus := ((m.bus.set (stackCell m.sp) (highByte back)).set (stackCell (m.sp - 1))
          (lowByte back)).set (stackCell (m.sp - 2)) status } := by
  have htwo : m.sp - 1 - 1 = m.sp - 2 := by grind
  have hthree : m.sp - 1 - 1 - 1 = m.sp - 3 := by grind
  rw [← hthree, ← htwo]
  simp only [enterHandler, goThrough, push, pushWord, write, Memory.write_eq,
    readWord_set_stackCell]

/-- Another status is another byte in the third of the cells, and nothing else. -/
theorem enterHandler_status (m : Machine Memory) (back : Address) (status status' : Byte) :
    m.enterHandler back status' =
      { m.enterHandler back status with
        bus := (m.enterHandler back status).bus.set (stackCell (m.sp - 2)) status' } := by
  rw [enterHandler_eq, enterHandler_eq, Memory.set_set]

/-- The three cells hold the address, high byte first, and the status. -/
theorem get_enterHandler (m : Machine Memory) (back : Address) (status : Byte) :
    let bus := (m.enterHandler back status).bus
    bus.get (stackCell m.sp) = highByte back ∧ bus.get (stackCell (m.sp - 1)) = lowByte back ∧
      bus.get (stackCell (m.sp - 2)) = status := by
  intro bus
  have hne : stackCell (m.sp - 1) ≠ stackCell m.sp := fun h => by
    have := stackCell_injective h
    grind
  have hne' : stackCell (m.sp - 2) ≠ stackCell m.sp := fun h => by
    have := stackCell_injective h
    grind
  have hne'' : stackCell (m.sp - 2) ≠ stackCell (m.sp - 1) := fun h => by
    have := stackCell_injective h
    grind
  have hbus : bus = _ := congrArg Machine.bus (m.enterHandler_eq back status)
  rw [hbus]
  refine ⟨?_, ?_, ?_⟩
  · rw [Memory.get_set_ne _ hne', Memory.get_set_ne _ hne, Memory.get_set_self]
  · rw [Memory.get_set_ne _ hne'', Memory.get_set_self]
  · rw [Memory.get_set_self]

section

variable {σ : Type} [Bus σ] (m : Machine σ)

/-- `BRK` comes back behind its padding and shows in the status that it was there. -/
theorem breakProgram_eq :
    m.breakProgram =
      { m with status := { m.status with interruptDisable := true } }.enterHandler (m.pc + 1)
        (m.status.toByte ||| 0x34) := by
  rw [← Status.pushedByProgram_interruptDisable]
  rfl

theorem irq_eq :
    m.irq =
      { m with status := { m.status with interruptDisable := true } }.enterHandler m.pc
        (m.status.toByte ||| 0x04) := by
  rw [← Status.toByte_interruptDisable]
  rfl

end

end Machine

/-! ### `BRK` and the maskable interrupt line -/

namespace Cpu

theorem tick_of_brk {σ : Type} [Bus σ] {c : Cpu σ} (hready : c.ready = true)
    (hopcode : Bus.read c.machine.bus c.machine.pc = 0x00) :
    c.tick = (none,
      { machine := { c.machine with pc := c.machine.pc + 1 }.breakProgram
        remaining := 7
        cycles := c.cycles + 1 }) := by
  have hlookup : Opcode.lookup (Bus.read c.machine.bus c.machine.pc) =
      some ⟨.brk, .implied, 7⟩ := by
    rw [hopcode]
    decide +kernel
  rw [tick_of_ready hready, fetch, Machine.step_of_defined hlookup]
  rfl

/-- The line pulled at an address that the host has chosen, interrupts enabled by it. -/
theorem irq_setPc_assignFlag {σ : Type} [Bus σ] {c : Cpu σ}
    (hunused : c.machine.status.unused = true) (back : Address) :
    ((c.setPc back).assignFlag .interruptDisable false).irq =
      { c with
        machine :=
          { c.machine with
            pc := back
            status := { c.machine.status with interruptDisable := true } }.enterHandler back
              (c.machine.status.toByte ||| 0x04)
        remaining := irqCycles } := by
  have hstatus : ((c.setPc back).assignFlag .interruptDisable false).machine.status =
      { c.machine.status with interruptDisable := false } :=
    Status.forceUnused_assign_flag hunused (by decide) false
  have hunmasked :
      ¬((c.setPc back).assignFlag .interruptDisable false).machine.status.interruptDisable =
        true := by
    rw [hstatus]
    exact Bool.false_ne_true
  rw [irq, if_neg hunmasked, Machine.irq_eq, hstatus, ← Status.toByte_interruptDisable,
    ← Status.toByte_interruptDisable]
  rfl

/--
**`BRK` is an interrupt behind its padding, but for bit 4 of the status that it pushes.**
Let a ready processor be about to execute `BRK` in plain memory, with the status bit set that
always reads as one.  Its tick does what the maskable line does when the host has moved the
program counter behind the padding and has enabled interrupts, except that the tick counts,
and that bit 4 is set in the third cell below the stack pointer.  There and above it are the
status with interrupts masked and the address behind the padding, and either way execution
goes on through the vector, with interrupts masked and the same ticks to go.
-/
theorem tick_brk_eq_irq (c : Cpu Memory) (hready : c.ready = true)
    (hopcode : c.machine.bus.get c.machine.pc = 0x00)
    (hunused : c.machine.status.unused = true) :
    let m := c.machine
    let interrupted := ((c.setPc (m.pc + 2)).assignFlag .interruptDisable false).irq
    let bus := interrupted.machine.bus
    let cell := 0x0100 ||| (m.sp - 2).toUInt16
    c.tick = (none, { interrupted with
      machine := { interrupted.machine with bus := bus.set cell (bus.get cell ||| 0x10) }
      cycles := interrupted.cycles + 1 }) ∧
    bus.get (0x0100 ||| m.sp.toUInt16) = highByte (m.pc + 2) ∧
    bus.get (0x0100 ||| (m.sp - 1).toUInt16) = lowByte (m.pc + 2) ∧
    bus.get cell = m.status.toByte ||| 0x04 ∧
    interrupted.machine.pc = Bus.readWord m.bus 0xFFFE ∧
    interrupted.machine.status = { m.status with interruptDisable := true } ∧
    interrupted.remaining = 7 := by
  intro m interrupted bus cell
  let masked : Machine Memory :=
    { m with pc := m.pc + 2, status := { m.status with interruptDisable := true } }
  have hinterrupted : interrupted =
      { c with
        machine := masked.enterHandler (m.pc + 2) (m.status.toByte ||| 0x04)
        remaining := irqCycles } := irq_setPc_assignFlag hunused (m.pc + 2)
  have hbus : bus = (masked.enterHandler (m.pc + 2) (m.status.toByte ||| 0x04)).bus :=
    congrArg (·.machine.bus) hinterrupted
  have hcell : cell = Machine.stackCell (m.sp - 2) := (Machine.stackCell_eq_or _).symm
  obtain ⟨hhigh, hlow, hstatus⟩ :=
    masked.get_enterHandler (m.pc + 2) (m.status.toByte ||| 0x04)
  have hbyte : bus.get cell = m.status.toByte ||| 0x04 := by
    rw [hbus, hcell]
    exact hstatus
  refine ⟨?_, ?_, ?_, hbyte, ?_, ?_, ?_⟩
  · have hback : m.pc + 1 + 1 = m.pc + 2 := UInt16.add_assoc _ _ _
    have hpushed : m.status.toByte ||| 0x34 = m.status.toByte ||| 0x04 ||| 0x10 := by
      rw [← Status.toByte_or_unused hunused, UInt8.or_assoc, UInt8.or_assoc, UInt8.or_assoc]
      rfl
    have hmachine : { m with pc := m.pc + 1 }.breakProgram =
        { interrupted.machine with bus := bus.set cell (bus.get cell ||| 0x10) } := by
      calc { m with pc := m.pc + 1 }.breakProgram
          = masked.enterHandler (m.pc + 2) (m.status.toByte ||| 0x34) := by
            rw [Machine.breakProgram_eq, ← hback]
            rfl
        _ = _ := by
            rw [masked.enterHandler_status _ (m.status.toByte ||| 0x04), ← hbus, hbyte, hpushed,
              hcell, hinterrupted]
    rw [tick_of_brk hready hopcode, hmachine, hinterrupted]
    rfl
  · rw [hbus, ← Machine.stackCell_eq_or]
    exact hhigh
  · rw [hbus, ← Machine.stackCell_eq_or]
    exact hlow
  · rw [hinterrupted]
    exact congrArg Machine.pc (masked.enterHandler_eq _ _)
  · rw [hinterrupted]
    exact congrArg Machine.status (masked.enterHandler_eq _ _)
  · rw [hinterrupted]
    rfl

/-- A processor about to execute `BRK` in the last cell, with room for two bytes in the ring. -/
def breaking : Cpu Memory where
  machine := { Machine.blank (Memory.zero.set 0xFFFE 0x40) with
    pc := 0xFFFF, sp := 0x01, status := Status.powerOn.set .carry true }
  remaining := 0
  cycles := 0

/-- The padding is in cell zero, and the status goes to the top of the stack page. -/
theorem tick_brk_eq_irq_breaking :
    let interrupted := ((breaking.setPc 0x0001).assignFlag .interruptDisable false).irq
    breaking.ready = true ∧ breaking.machine.bus.get breaking.machine.pc = 0x00 ∧
    breaking.machine.status.unused = true ∧
    interrupted.machine.bus.get 0x0101 = 0x00 ∧ interrupted.machine.bus.get 0x0100 = 0x01 ∧
    interrupted.machine.bus.get 0x01FF = 0x25 ∧ interrupted.machine.pc = 0x0040 ∧
    breaking.tick.2.machine.bus.get 0x01FF = 0x35 ∧ breaking.tick.2.remaining = 7 := by
  intro interrupted
  have hopcode : breaking.machine.bus.get breaking.machine.pc = 0x00 := by
    simp [breaking, Machine.blank, Memory.get_set]
  have hvector : Bus.readWord breaking.machine.bus 0xFFFE = 0x0040 := by
    simp [Bus.readWord, breaking, Machine.blank, Memory.get_set, wordOf]
  have hback : breaking.machine.pc + 2 = 0x0001 := by decide
  have hfirst : 0x0100 ||| breaking.machine.sp.toUInt16 = 0x0101 := by decide
  have hsecond : 0x0100 ||| (breaking.machine.sp - 1).toUInt16 = 0x0100 := by decide
  have hthird : 0x0100 ||| (breaking.machine.sp - 2).toUInt16 = 0x01FF := by decide
  obtain ⟨htick, hhigh, hlow, hstatus, hpc, -, hcost⟩ := tick_brk_eq_irq breaking rfl hopcode rfl
  rw [hback] at htick hhigh hlow hstatus hpc hcost
  rw [hfirst] at hhigh
  rw [hsecond] at hlow
  rw [hthird] at hstatus htick
  have hpushed : interrupted.machine.bus.get 0x01FF = 0x25 := hstatus.trans (by decide)
  refine ⟨rfl, hopcode, rfl, hhigh, hlow, hpushed, hpc.trans hvector, ?_, ?_⟩
  · rw [htick, Memory.get_set_self, hpushed]
    rfl
  · rw [htick]
    exact hcost

end Cpu

end Nmos6502
