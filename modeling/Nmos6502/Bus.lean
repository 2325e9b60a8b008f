/-
What the processor is wired to.

The engine never looks inside a memory.  It knows a bus only through the byte that
comes back from an address and the bus that is left after a byte has been sent to
one, so plain memory, memory behind a partial address decoder and memory-mapped
devices all run the same programs.  Laws that hold of every bus are stated over this
class.

One kind of device is left out: a read gives a byte and no new bus, so that it leaves no
trace and gives the same byte when it is repeated.  A register that is cleared by being
read, or a clock that goes on between two reads, is not a bus in this sense, and no law
below speaks of it.
-/
import Nmos6502.Word

namespace Nmos6502

/--
A device that answers reads and takes writes.  Nothing is asked of how the two go
together: a read after a write may give any byte, as it does where an address belongs to
no memory.  A read by itself changes nothing and can be repeated.
-/
class Bus (σ : Type) where
  /-- The byte that the device puts on the data lines for an address. -/
  read : σ → Address → Byte
  /-- The device after a byte has been sent to an address. -/
  write : σ → Address → Byte → σ

namespace Bus

variable {σ : Type} [Bus σ]

/-- The word whose low byte is at `a`, its high byte in the next cell, around the end of memory. -/
def readWord (bus : σ) (a : Address) : Address :=
  wordOf (read bus a) (read bus (a + 1))

/--
The word at cell `p` of page zero.  The pointer stays in the page: behind `$FF` its
high byte is in cell `$00`.
-/
def readZeroPageWord (bus : σ) (p : Byte) : Address :=
  wordOf (read bus p.toUInt16) (read bus (p + 1).toUInt16)

/-- The bytes in the `n` cells from `a` on, around the end of memory. -/
def readBytes (bus : σ) (a : Address) (n : Nat) : List Byte :=
  (List.range n).map fun i => read bus (a + UInt16.ofNat i)

@[simp] theorem length_readBytes (bus : σ) (a : Address) (n : Nat) :
    (readBytes bus a n).length = n := by
  simp [readBytes]

end Bus

end Nmos6502
