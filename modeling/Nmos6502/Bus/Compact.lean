/-
Memory no larger than its address lines reach.

A board that decodes only some of the address lines reaches only the cells whose address
lies within the mask, so a chip with cells up to the mask is all that it needs.  The chip
stores every byte once, and the lines that are left out do not get to it.
-/
import Nmos6502.Bus

namespace Nmos6502

/-- Memory with one cell for each number up to the mask, behind the address lines in it. -/
structure Compact (mask : Address) where
  cells : Vector Byte (mask.toNat + 1)

namespace Compact

variable {mask : Address}

/-- Memory in which every cell holds zero. -/
def zero : Compact mask := ⟨Vector.replicate _ 0⟩

theorem toNat_and_lt (mask a : Address) : (a &&& mask).toNat < mask.toNat + 1 := by
  rw [UInt16.toNat_and]
  exact Nat.lt_succ_of_le Nat.and_le_right

/-- The byte in the cell that an address gets to. -/
def get (b : Compact mask) (a : Address) : Byte :=
  have := toNat_and_lt mask a
  b.cells[(a &&& mask).toNat]

/-- The memory after a byte has been put into the cell that an address gets to. -/
def set (b : Compact mask) (a : Address) (v : Byte) : Compact mask :=
  ⟨b.cells.set (a &&& mask).toNat v (toNat_and_lt mask a)⟩

instance : Bus (Compact mask) where
  read := get
  write := set

theorem get_set (b : Compact mask) (a a' : Address) (v : Byte) :
    (b.set a v).get a' = if a &&& mask = a' &&& mask then v else b.get a' := by
  simp only [get, set, Vector.getElem_set, UInt16.toNat_inj]

@[simp] theorem get_zero (a : Address) : (zero : Compact mask).get a = 0 := by
  simp [zero, get]

end Compact

end Nmos6502
