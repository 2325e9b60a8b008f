/-
Plain memory: 65536 cells, each of which keeps the last byte written to it.

The size is part of the type, so an address always names a cell and no access needs
a bounds check or a default.  `get_set` is the one law that the rest of the library
uses; `load` is a sequence of writes to consecutive addresses, which is why a later
byte wins where a long load runs over its own beginning.
-/
import Nmos6502.Bus

namespace Nmos6502

/-- The whole address space as memory, one cell for each address. -/
structure Memory where
  cells : Vector Byte 65536

namespace Memory

/-- Memory in which every cell holds zero. -/
def zero : Memory := ⟨Vector.replicate 65536 0⟩

instance : Inhabited Memory := ⟨zero⟩

/-- The byte in the cell at `a`. -/
def get (m : Memory) (a : Address) : Byte :=
  have := a.toNat_lt
  m.cells[a.toNat]

/-- The memory after `v` is put into the cell at `a`. -/
def set (m : Memory) (a : Address) (v : Byte) : Memory :=
  have := a.toNat_lt
  ⟨m.cells.set a.toNat v⟩

instance : Bus Memory where
  read := get
  write := set

/-- The memory after the bytes are put into consecutive cells from `offset` on, in order. -/
def load (m : Memory) : List Byte → Address → Memory
  | [], _ => m
  | b :: bs, offset => (m.set offset b).load bs (offset + 1)

/-! ### A cell keeps the last byte written to it -/

@[simp] theorem get_zero (a : Address) : zero.get a = 0 := by
  simp [zero, get]

theorem get_set (m : Memory) (a b : Address) (v : Byte) :
    (m.set a v).get b = if a = b then v else m.get b := by
  simp only [get, set, Vector.getElem_set, UInt16.toNat_inj]

@[simp] theorem get_set_self (m : Memory) (a : Address) (v : Byte) : (m.set a v).get a = v := by
  simp [get_set]

theorem get_set_ne (m : Memory) {a b : Address} (h : a ≠ b) (v : Byte) :
    (m.set a v).get b = m.get b := by
  simp [get_set, h]

/-- Of two writes to one cell the later one is left. -/
@[simp] theorem set_set (m : Memory) (a : Address) (v w : Byte) :
    (m.set a v).set a w = m.set a w := by
  simp only [set, Vector.set_set]

@[simp] theorem read_eq (m : Memory) (a : Address) : Bus.read m a = m.get a := rfl

@[simp] theorem write_eq (m : Memory) (a : Address) (v : Byte) : Bus.write m a v = m.set a v := rfl

/-- Two memories with the same byte in every cell are the same memory. -/
@[ext] theorem ext {m n : Memory} (h : ∀ a, m.get a = n.get a) : m = n := by
  obtain ⟨m⟩ := m
  obtain ⟨n⟩ := n
  congr 1
  apply Vector.ext
  intro i hi
  have := h (UInt16.ofNat i)
  simpa [get, UInt16.toNat_ofNat', Nat.mod_eq_of_lt hi] using this

@[simp] theorem load_nil (m : Memory) (offset : Address) : m.load [] offset = m := rfl

@[simp] theorem load_cons (m : Memory) (b : Byte) (bs : List Byte) (offset : Address) :
    m.load (b :: bs) offset = (m.set offset b).load bs (offset + 1) := rfl

end Memory

end Nmos6502
