/-
A reset leaves nothing of what was before but the tick total, and nothing reads that.

Reset takes the program counter from the bus and every other register from nowhere, so
two processors on one bus are alike once both have been reset, `alike_reset`.  Their tick
totals may be apart, and they stay apart by as much: no instruction, interrupt or budget
looks at the total, so no history tells the two processors apart, `replay_reset`.
-/
import Nmos6502.Memory
import Nmos6502.Proofs.Alike.History

namespace Nmos6502

namespace Cpu

variable {σ : Type} [Bus σ]

theorem alike_reset {c c' : Cpu σ} (hbus : c.machine.bus = c'.machine.bus) :
    Alike Eq Flag.all (c'.cycles - c.cycles) c.reset c'.reset where
  machine := Machine.alike_reset (.eq σ) hbus
  remaining := rfl
  cycles := by
    show c.cycles + (c'.cycles - c.cycles) = c'.cycles
    rw [UInt64.add_comm, UInt64.sub_add_cancel]

/--
**A reset erases history, and the tick total is only watched.**  A reset sends nothing
over the bus.  Two processors on one bus, whatever their registers, status, countdown and
tick total, are the same to every history after both have been reset: the answers are the
same, and so are the registers, the bus and the countdown that it leaves, while the tick
totals stay as far apart as they were, modulo 2 to the 64th.
-/
theorem replay_reset (c c' : Cpu σ) (hbus : c.machine.bus = c'.machine.bus) (es : List Event) :
    let after := (c.reset.replay es).2
    let after' := (c'.reset.replay es).2
    c.reset.machine.bus = c.machine.bus ∧
    (c.reset.replay es).1 = (c'.reset.replay es).1 ∧
    after.machine = after'.machine ∧ after.remaining = after'.remaining ∧
    (∀ start last, after.disassemble start last = after'.disassemble start last) ∧
    after'.cycles - after.cycles = c'.cycles - c.cycles := by
  intro after after'
  obtain ⟨hanswers, hafter⟩ := (alike_reset hbus).replay (.eq σ) es
  refine ⟨rfl, hanswers, hafter.machine.eq, hafter.remaining, hafter.disassemble (.eq σ), ?_⟩
  show after'.cycles - after.cycles = _
  rw [show after'.cycles = _ from hafter.cycles.symm, UInt64.add_comm]
  exact UInt64.add_sub_cancel _ _

/-- A processor in the middle of an instruction, with every register used. -/
def worn : Cpu Memory where
  machine := { Machine.blank Memory.zero with
    a := 1, x := 2, y := 3, sp := 4, pc := 0x1234, status := .ofByte 0xFF }
  remaining := 5
  cycles := 1000

/-- The reset of a new processor and the reset in the middle of an instruction. -/
theorem replay_reset_worn :
    let c := new Memory.zero
    let es := [Event.step, .irq, .run 10, .disassemble 0x0000 0x0010]
    c.machine.bus = worn.machine.bus ∧
    (c.reset.replay es).1 = (worn.reset.replay es).1 ∧
    (c.reset.replay es).2.machine = (worn.reset.replay es).2.machine ∧
    (c.reset.replay es).2.remaining = (worn.reset.replay es).2.remaining ∧
    (worn.reset.replay es).2.cycles - (c.reset.replay es).2.cycles = 1000 := by
  intro c es
  have hbus : c.machine.bus = worn.machine.bus := rfl
  obtain ⟨-, hanswers, hmachine, hremaining, -, hlag⟩ := replay_reset c worn hbus es
  exact ⟨hbus, hanswers, hmachine, hremaining, hlag.trans (by decide)⟩

end Cpu

end Nmos6502
