/-
The stack as a list of bytes.

Above the stack pointer the cells of page one hold what has been pushed, the last byte
first.  `Memory.Above` is that reading of them.  A push puts a byte in front and a pull
takes one off, which is all that the rest of the library knows of the stack.

The page is a ring, so the cell that a push writes is one of those above the pointer
once 256 of them are taken.  Everything that is said of a push here is said of a list
with room in front of it.
-/
import Nmos6502.Machine
import Nmos6502.Memory

namespace Nmos6502

/-! ### The cells above a stack pointer -/

theorem Machine.toNat_stackCell (p : Byte) : (Machine.stackCell p).toNat = 256 + p.toNat := by
  have hlt := p.toNat_lt
  rw [Machine.stackCell, UInt16.toNat_add, UInt8.toNat_toUInt16]
  show (256 + p.toNat) % 65536 = _
  omega

theorem Machine.stackCell_injective {p q : Byte}
    (h : Machine.stackCell p = Machine.stackCell q) : p = q := by
  have hcell := congrArg UInt16.toNat h
  rw [Machine.toNat_stackCell, Machine.toNat_stackCell] at hcell
  exact UInt8.toNat_inj.mp (by omega)

theorem add_ofNat_succ (p : Byte) (n : Nat) :
    p + UInt8.ofNat (n + 1) = p + 1 + UInt8.ofNat n := by
  rw [Nat.add_comm, UInt8.ofNat_add, ← UInt8.add_assoc]
  rfl

/-- The `n` cells above a stack pointer, the lowest first. -/
def cellsAbove (sp : Byte) : Nat → List Address
  | 0 => []
  | n + 1 => Machine.stackCell (sp + 1) :: cellsAbove (sp + 1) n

theorem exists_of_mem_cellsAbove {a : Address} :
    ∀ {n : Nat} {sp : Byte}, a ∈ cellsAbove sp n →
      ∃ i, 1 ≤ i ∧ i ≤ n ∧ a = Machine.stackCell (sp + UInt8.ofNat i) := by
  intro n
  induction n with
  | zero => intro sp h; exact absurd h (by simp [cellsAbove])
  | succ n ih =>
      intro sp h
      rcases List.mem_cons.mp h with hfirst | hrest
      · exact ⟨1, by omega, by omega, hfirst⟩
      · obtain ⟨i, hlow, hhigh, ha⟩ := ih hrest
        refine ⟨i + 1, by omega, by omega, ?_⟩
        rw [ha, add_ofNat_succ]

/-- The cell at the stack pointer is above it only when the whole ring is. -/
theorem stackCell_notMem_cellsAbove {sp : Byte} {n : Nat} (h : n < 256) :
    Machine.stackCell sp ∉ cellsAbove sp n := by
  intro hmem
  obtain ⟨i, hlow, hhigh, hi⟩ := exists_of_mem_cellsAbove hmem
  have hsp := congrArg UInt8.toNat (Machine.stackCell_injective hi)
  rw [UInt8.toNat_add, UInt8.toNat_ofNat'] at hsp
  have hlt := sp.toNat_lt
  omega

theorem cellsAbove_add (m n : Nat) :
    ∀ sp : Byte,
      cellsAbove sp (m + n) = cellsAbove sp m ++ cellsAbove (sp + UInt8.ofNat m) n := by
  induction m with
  | zero => intro sp; simp [cellsAbove]
  | succ m ih =>
      intro sp
      rw [Nat.add_right_comm, cellsAbove, cellsAbove, ih, add_ofNat_succ]
      rfl

/-! ### The bytes in them -/

namespace Memory

/-- The bytes lie above the stack pointer, the first of them lowest. -/
def Above (memory : Memory) : Byte → List Byte → Prop
  | _, [] => True
  | sp, b :: bs => memory.get (Machine.stackCell (sp + 1)) = b ∧ Above memory (sp + 1) bs

/-- A write elsewhere leaves them there. -/
theorem above_set {memory : Memory} {a : Address} (v : Byte) :
    ∀ {bs : List Byte} {sp : Byte}, memory.Above sp bs → a ∉ cellsAbove sp bs.length →
      (memory.set a v).Above sp bs := by
  intro bs
  induction bs with
  | nil => intro sp _ _; trivial
  | cons b bs ih =>
      intro sp habove ha
      obtain ⟨hfirst, hrest⟩ := habove
      obtain ⟨hne, hnot⟩ := not_or.mp fun h => ha (List.mem_cons.mpr h)
      refine ⟨?_, ih hrest hnot⟩
      rw [get_set_ne memory hne, hfirst]

theorem above_append {memory : Memory} :
    ∀ {bs cs : List Byte} {sp : Byte}, memory.Above sp (bs ++ cs) →
      memory.Above sp bs ∧ memory.Above (sp + UInt8.ofNat bs.length) cs := by
  intro bs cs
  induction bs with
  | nil => intro sp h; exact ⟨trivial, by simpa using h⟩
  | cons b bs ih =>
      intro sp h
      obtain ⟨hfirst, hrest⟩ := h
      obtain ⟨hbs, hcs⟩ := ih hrest
      refine ⟨⟨hfirst, hbs⟩, ?_⟩
      rw [List.length_cons, add_ofNat_succ]
      exact hcs

end Memory

/-! ### Pushing a list -/

namespace Machine

section

variable {σ : Type} [Bus σ]

/-- The machine after the bytes have been pushed, the first of them last. -/
def pushAll (m : Machine σ) : List Byte → Machine σ
  | [] => m
  | b :: bs => (m.pushAll bs).push b

theorem sp_pushAll (m : Machine σ) (bs : List Byte) :
    m.sp = (m.pushAll bs).sp + UInt8.ofNat bs.length := by
  induction bs with
  | nil => exact (UInt8.add_zero m.sp).symm
  | cons b bs ih =>
      show m.sp = (m.pushAll bs).sp - 1 + UInt8.ofNat (bs.length + 1)
      rw [add_ofNat_succ, UInt8.sub_add_cancel]
      exact ih

end

/-- Pushing keeps to the stack page. -/
theorem get_pushAll (m : Machine Memory) {a : Address} (ha : ∀ p, stackCell p ≠ a)
    (bs : List Byte) : (m.pushAll bs).bus.get a = m.bus.get a := by
  induction bs with
  | nil => rfl
  | cons b bs ih =>
      show ((m.pushAll bs).bus.set (stackCell (m.pushAll bs).sp) b).get a = m.bus.get a
      rw [Memory.get_set_ne _ (ha _), ih]

/-- **What is pushed lies in front of what was there**, while there is room for both. -/
theorem above_pushAll {m : Machine Memory} {cs : List Byte} (hcs : m.bus.Above m.sp cs) :
    ∀ {bs : List Byte}, bs.length + cs.length ≤ 256 →
      (m.pushAll bs).bus.Above (m.pushAll bs).sp (bs ++ cs) := by
  intro bs
  induction bs with
  | nil => intro _; exact hcs
  | cons b bs ih =>
      intro hroom
      rw [List.length_cons] at hroom
      have hrest := ih (by omega)
      have hlt : (bs ++ cs).length < 256 := by
        rw [List.length_append]
        omega
      have hback : (m.pushAll bs).sp - 1 + 1 = (m.pushAll bs).sp := UInt8.sub_add_cancel _ _
      show ((m.pushAll bs).bus.set (stackCell (m.pushAll bs).sp) b).Above
        ((m.pushAll bs).sp - 1) (b :: (bs ++ cs))
      refine ⟨?_, ?_⟩
      · rw [hback, Memory.get_set_self]
      · rw [hback]
        exact Memory.above_set b hrest (stackCell_notMem_cellsAbove hlt)

end Machine

end Nmos6502
