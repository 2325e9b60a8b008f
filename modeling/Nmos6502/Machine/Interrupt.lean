/-
What the interrupt and reset lines do to the machine.

An interrupt leaves the program counter and the status on the stack, in that order,
and goes on at the address stored at a vector, which is read after the pushes.  The
maskable line looks at the interrupt-disable bit first and sets it before the status
is pushed; the non-maskable line leaves the bit alone.  Neither sets bit 4 of the
pushed status, which is how a handler tells them from `BRK`.
-/
import Nmos6502.Machine

namespace Nmos6502

namespace Machine

variable {σ : Type} [Bus σ]

/-- Leaves the running program on the stack and goes through a vector. -/
def interrupt (m : Machine σ) (vector : Address) : Machine σ :=
  let m := m.pushWord m.pc
  (m.push m.status.toByte).goThrough vector

/-- The maskable line when it is not masked. -/
def irq (m : Machine σ) : Machine σ :=
  { m with status := { m.status with interruptDisable := true } }.interrupt irqVector

/-- The non-maskable line. -/
def nmi (m : Machine σ) : Machine σ := m.interrupt nmiVector

/-- The reset line: nothing of the registers survives, and memory is only read. -/
def reset (m : Machine σ) : Machine σ :=
  { m with a := 0, x := 0, y := 0, sp := 0xFF, status := .powerOn }.goThrough resetVector

end Machine

end Nmos6502
