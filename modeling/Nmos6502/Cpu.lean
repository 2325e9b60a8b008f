/-
The processor as a clocked device.

A whole instruction happens on the tick that fetches it; the ticks after that only
count its cost down, so that the next fetch comes no earlier than on a real chip.
Reset and interrupts work the same way: the machine changes at once and the countdown
starts afresh.  The machine itself never sees the countdown, which is why an interrupt
raised between two fetches acts as if it had come right after the first of them.

The tick total only counts.  Nothing reads it, and nothing but a tick moves it.
-/
import Nmos6502.Machine.Execute
import Nmos6502.Machine.Interrupt

namespace Nmos6502

/-- The ticks that a reset takes. -/
def resetCycles : Byte := 6

/-- The ticks that entering a handler for a maskable interrupt takes. -/
def irqCycles : Byte := 7

/-- The ticks that entering a handler for a non-maskable interrupt takes. -/
def nmiCycles : Byte := 8

/-- A machine and the clock that drives it. -/
structure Cpu (σ : Type) where
  /-- What a program can see. -/
  machine : Machine σ
  /-- Ticks still to go before the next fetch. -/
  remaining : Byte
  /-- Ticks since construction, modulo 2 to the 64th. -/
  cycles : UInt64

namespace Cpu

variable {σ : Type}

/-- Whether the next tick fetches. -/
def ready (c : Cpu σ) : Bool := c.remaining == 0

/-- A tick on which the processor is busy. -/
def idle (c : Cpu σ) : Cpu σ :=
  { c with remaining := c.remaining - 1, cycles := c.cycles + 1 }

theorem ready_eq_false {c : Cpu σ} (h : 0 < c.remaining.toNat) : c.ready = false := by
  have hne : c.remaining ≠ 0 := by
    intro hzero
    rw [hzero] at h
    exact absurd h (by decide)
  simp [ready, hne]

/-- A busy tick takes one off the countdown, which does not wrap. -/
theorem toNat_remaining_idle {c : Cpu σ} (h : c.ready = false) :
    c.idle.remaining.toNat = c.remaining.toNat - 1 := by
  have hne : c.remaining ≠ 0 := by simpa [ready] using h
  have hpos : 1 ≤ c.remaining := by
    rw [UInt8.le_iff_toNat_le]
    exact Nat.pos_of_ne_zero fun hzero => hne (UInt8.toNat_inj.mp hzero)
  exact UInt8.toNat_sub_of_le _ _ hpos

variable [Bus σ]

/-- A tick on which the processor fetches.  An undefined opcode costs nothing more. -/
def fetch (c : Cpu σ) : Option IllegalOpcode × Cpu σ :=
  let ⟨machine, _, cycles⟩ := c
  match machine.step with
  | (.ok cost, machine) => (none, { machine, remaining := cost, cycles := cycles + 1 })
  | (.error e, machine) => (some e, { machine, remaining := 0, cycles := cycles + 1 })

/-- One tick of the clock, with the error if it fetched a byte that names no instruction. -/
def tick (c : Cpu σ) : Option IllegalOpcode × Cpu σ :=
  if c.ready then c.fetch else (none, c.idle)

/-- Ticks until the budget is used up or a tick fails, which is the last one then. -/
def runForTicks : Nat → Cpu σ → Option IllegalOpcode × Cpu σ
  | 0, c => (none, c)
  | budget + 1, c =>
    match c.tick with
    | (some e, c) => (some e, c)
    | (none, c) => runForTicks budget c

/--
Ticks once, and then until the processor is ready.  A busy processor finishes what it
is doing; a ready one runs a whole instruction.  The ticks after the first count down
what remains, so their number is known and none of them can fail.
-/
def stepInstruction (c : Cpu σ) : Option IllegalOpcode × Cpu σ :=
  match c.tick with
  | (some e, c) => (some e, c)
  | (none, c) => runForTicks c.remaining.toNat c

theorem tick_of_ready {c : Cpu σ} (h : c.ready = true) : c.tick = c.fetch := by
  simp [tick, h]

theorem tick_of_busy {c : Cpu σ} (h : c.ready = false) : c.tick = (none, c.idle) := by
  simp [tick, h]

/-- A busy processor gets through what remains without an error, and only counts. -/
theorem runForTicks_remaining (c : Cpu σ) :
    runForTicks c.remaining.toNat c =
      (none, { c with remaining := 0, cycles := c.cycles + c.remaining.toUInt64 }) := by
  generalize hn : c.remaining.toNat = n
  induction n generalizing c with
  | zero =>
      have h0 : c.remaining = 0 := UInt8.toNat_inj.mp hn
      rw [runForTicks, h0]
      cases c
      simp_all
  | succ n ih =>
      have hlt := c.remaining.toNat_lt
      have hbusy : c.ready = false := ready_eq_false (by omega)
      have hpred : c.idle.remaining.toNat = n := by
        rw [toNat_remaining_idle hbusy, hn, Nat.add_sub_cancel]
      have hcycles : c.idle.cycles + c.idle.remaining.toUInt64 =
          c.cycles + c.remaining.toUInt64 := by
        apply UInt64.toNat_inj.mp
        rw [UInt64.toNat_add, UInt64.toNat_add, UInt8.toNat_toUInt64, UInt8.toNat_toUInt64,
          hpred, hn]
        simp [idle]
        omega
      rw [runForTicks, tick_of_busy hbusy]
      show runForTicks n c.idle = _
      rw [ih c.idle hpred, hcycles]
      rfl

/-- A step of a ready processor takes the machine one instruction on. -/
theorem stepInstruction_of_step {c : Cpu σ} (hready : c.ready = true) {cost : Byte}
    {m : Machine σ} (h : c.machine.step = (.ok cost, m)) :
    c.stepInstruction =
      (none, { machine := m, remaining := 0, cycles := c.cycles + 1 + cost.toUInt64 }) := by
  rw [stepInstruction, tick_of_ready hready, fetch, h]
  exact runForTicks_remaining _

/-- Pulls the reset line. -/
def reset (c : Cpu σ) : Cpu σ :=
  { c with machine := c.machine.reset, remaining := resetCycles }

/-- Pulls the maskable interrupt line, which is ignored while interrupts are disabled. -/
def irq (c : Cpu σ) : Cpu σ :=
  if c.machine.status.interruptDisable then c
  else { c with machine := c.machine.irq, remaining := irqCycles }

/-- Pulls the non-maskable interrupt line. -/
def nmi (c : Cpu σ) : Cpu σ :=
  { c with machine := c.machine.nmi, remaining := nmiCycles }

/-- A processor just switched on and reset, with no tick behind it. -/
def new (bus : σ) : Cpu σ :=
  reset { machine := .blank bus, remaining := 0, cycles := 0 }

end Cpu

/-! ### The host's access -/

namespace Cpu

variable {σ : Type}

/-- The processor after the host has put a byte into a register. -/
def setRegister (c : Cpu σ) (r : Register) (v : Byte) : Cpu σ :=
  { c with machine := c.machine.set r v }

/-- The processor after the host has moved the program counter. -/
def setPc (c : Cpu σ) (a : Address) : Cpu σ :=
  { c with machine := { c.machine with pc := a } }

/-- The processor after the host has replaced the status; bit 5 stays set. -/
def setStatus (c : Cpu σ) (b : Byte) : Cpu σ :=
  { c with machine := { c.machine with status := (Status.ofByte b).forceUnused } }

/-- The processor after the host has given the masked flags one value; bit 5 stays set. -/
def assignFlags (c : Cpu σ) (mask : Status) (on : Bool) : Cpu σ :=
  { c with machine :=
      { c.machine with status := (c.machine.status.assign mask on).forceUnused } }

/-- The processor after the host has given one flag a value; bit 5 stays set. -/
def assignFlag (c : Cpu σ) (f : Flag) (on : Bool) : Cpu σ :=
  c.assignFlags (Status.none.set f true) on

/-- The processor after the host has sent a byte over its bus. -/
def write [Bus σ] (c : Cpu σ) (a : Address) (v : Byte) : Cpu σ :=
  { c with machine := c.machine.write a v }

/-- The processor after the host has changed what is behind its address lines. -/
def mapBus (c : Cpu σ) (f : σ → σ) : Cpu σ :=
  { c with machine := { c.machine with bus := f c.machine.bus } }

end Cpu

end Nmos6502
