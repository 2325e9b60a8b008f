/-
Memory behind an address decoder.

A board need not decode every address line: the lines left out of the mask do not
matter, and a smaller memory shows up again and again throughout the address space.
A board may also hold a window against writes, as it does where a program is burnt in.
The window is compared with the address on the bus, before the mask.
-/
import Nmos6502.Memory

namespace Nmos6502

/-- Memory as a board maps it. -/
structure Mapped where
  memory : Memory
  /-- The address lines that are decoded. -/
  mask : Address
  /-- The first and the last address of the window that ignores writes, if there is one. -/
  window : Option (Address × Address)

namespace Mapped

/-- Whether a write to an address is ignored. -/
def protects (b : Mapped) (a : Address) : Bool :=
  match b.window with
  | some (first, last) => first ≤ a && a ≤ last
  | none => false

instance : Bus Mapped where
  read b a := b.memory.get (a &&& b.mask)
  write b a v :=
    if b.protects a then b else { b with memory := b.memory.set (a &&& b.mask) v }

end Mapped

end Nmos6502
