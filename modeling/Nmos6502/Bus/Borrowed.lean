/-
A device on loan.

A processor need not own what it is wired to.  A borrowed device passes every read and
every write on to the owner's device, which the owner has back when the processor is done
with it.
-/
import Nmos6502.Bus

namespace Nmos6502

/-- A device that belongs to somebody else. -/
structure Borrowed (σ : Type) where
  /-- The owner's device as it is now. -/
  device : σ

namespace Borrowed

variable {σ : Type}

instance [Bus σ] : Bus (Borrowed σ) where
  read b a := Bus.read b.device a
  write b a v := ⟨Bus.write b.device a v⟩

end Borrowed

end Nmos6502
