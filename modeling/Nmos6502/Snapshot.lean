/-
The registers at one moment, taken out of the machine.
-/
import Nmos6502.Machine

namespace Nmos6502

/-- The values of all registers. -/
structure Snapshot where
  a : Byte
  x : Byte
  y : Byte
  sp : Byte
  pc : Address
  status : Status
  deriving DecidableEq, Repr

/-- The registers of a machine as they are now. -/
def Machine.snapshot {σ : Type} (m : Machine σ) : Snapshot :=
  { a := m.a, x := m.x, y := m.y, sp := m.sp, pc := m.pc, status := m.status }

end Nmos6502
