/-
A bus that remembers what was sent over it.

Any bus can be wrapped: reads and writes go through unchanged, and every write is also
appended to a record.  What an instruction sends to the outside, in which order, is
thus an observation on a state and needs no second semantics.
-/
import Nmos6502.Bus

namespace Nmos6502

/-- A bus with the writes that have gone over it, oldest first. -/
structure Recorded (σ : Type) where
  /-- The bus that answers. -/
  bus : σ
  /-- Every byte that was sent, with its address. -/
  writes : Array (Address × Byte)

namespace Recorded

variable {σ : Type}

/-- A bus whose record starts now. -/
def start (bus : σ) : Recorded σ := ⟨bus, #[]⟩

/-- The bus with an empty record. -/
def clear (r : Recorded σ) : Recorded σ := { r with writes := #[] }

instance [Bus σ] : Bus (Recorded σ) where
  read r a := Bus.read r.bus a
  write r a v := ⟨Bus.write r.bus a v, r.writes.push (a, v)⟩

end Recorded

end Nmos6502
