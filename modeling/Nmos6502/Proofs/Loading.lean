/-
What loading a row of bytes leaves in memory.

A row may be longer than memory: it then runs over its own beginning, and a cell holds the
byte of the last place that lands in it.  What an induction from the front cannot see is
whether a byte will be written over, so the row is taken from the end.  Loading one byte
more is loading the rest and then setting one cell, `load_concat`, and the last place of
the longer row is either that byte's or the last one of the shorter row.

The law of append and that of disjoint loads follow from what loading is, a row of single
writes, and need no last place.
-/
import Mathlib.Data.List.Induction
import Mathlib.Order.Bounds.Basic
import Nmos6502.Memory

namespace Nmos6502

namespace Memory

/-! ### The cells that a row lands in -/

/-- The `j`-th byte of a row that is loaded from `offset` on goes into the cell at `a`. -/
def Lands (offset : Address) (j : Nat) (a : Address) : Prop :=
  (offset.toNat + j) % 65536 = a.toNat

theorem lands_iff {offset : Address} {j : Nat} {a : Address} :
    Lands offset j a ↔ offset + UInt16.ofNat j = a := by
  rw [← UInt16.toNat_inj, UInt16.toNat_add, UInt16.toNat_ofNat', Nat.add_mod_mod]
  rfl

/-! ### A load taken apart -/

/-- **A row that is loaded is its front and then its back**, which goes on where the front ends. -/
theorem load_append (m : Memory) (bs cs : List Byte) (offset : Address) :
    m.load (bs ++ cs) offset =
      (m.load bs offset).load cs (offset + UInt16.ofNat bs.length) := by
  induction bs generalizing m offset with
  | nil =>
      rw [List.nil_append, load_nil]
      exact congrArg (m.load cs) (UInt16.add_zero offset).symm
  | cons b bs ih =>
      have hnext : offset + 1 + UInt16.ofNat bs.length =
          offset + UInt16.ofNat (b :: bs).length := by
        rw [List.length_cons, Nat.add_comm, UInt16.ofNat_add, ← UInt16.add_assoc]
        rfl
      rw [List.cons_append, load_cons, load_cons, ih, hnext]

theorem load_concat (m : Memory) (bs : List Byte) (b : Byte) (offset : Address) :
    m.load (bs ++ [b]) offset = (m.load bs offset).set (offset + UInt16.ofNat bs.length) b := by
  rw [load_append, load_cons, load_nil]

/-! ### The last byte that lands in a cell -/

/-- One place more is the last one, unless it lands elsewhere. -/
theorem isGreatest_lands_succ {offset a : Address} {n j : Nat} (hn : ¬Lands offset n a)
    (h : IsGreatest {i | i < n ∧ Lands offset i a} j) :
    IsGreatest {i | i < n + 1 ∧ Lands offset i a} j := by
  obtain ⟨⟨hj, hlands⟩, hlast⟩ := h
  refine ⟨⟨Nat.lt_succ_of_lt hj, hlands⟩, ?_⟩
  rintro i ⟨hi, hi'⟩
  rcases Nat.lt_succ_iff_lt_or_eq.mp hi with hlt | rfl
  · exact hlast ⟨hlt, hi'⟩
  · exact absurd hi' hn

/-- **A cell holds the byte of the last place that lands in it**, or what it held before. -/
theorem get_load (m : Memory) (bs : List Byte) (offset a : Address) :
    (∃ j, IsGreatest {i | i < bs.length ∧ Lands offset i a} j ∧
      bs[j]? = some ((m.load bs offset).get a)) ∨
    ((∀ j < bs.length, ¬Lands offset j a) ∧ (m.load bs offset).get a = m.get a) := by
  induction bs using List.reverseRecOn with
  | nil => exact Or.inr ⟨fun j hj => absurd hj (Nat.not_lt_zero j), rfl⟩
  | append_singleton bs b ih =>
      rw [load_concat, List.length_append, List.length_singleton]
      by_cases hlast : Lands offset bs.length a
      · refine Or.inl ⟨bs.length, ⟨⟨Nat.lt_succ_self _, hlast⟩, ?_⟩, ?_⟩
        · exact fun i hi => Nat.le_of_lt_succ hi.1
        · rw [lands_iff.mp hlast, get_set_self, List.getElem?_concat_length]
      · have hne : offset + UInt16.ofNat bs.length ≠ a := fun ha => hlast (lands_iff.mpr ha)
        rw [get_set_ne _ hne]
        rcases ih with ⟨j, hj, hbyte⟩ | ⟨hnone, hkept⟩
        · refine Or.inl ⟨j, isGreatest_lands_succ hlast hj, ?_⟩
          rw [List.getElem?_append_left hj.1.1, hbyte]
        · refine Or.inr ⟨?_, hkept⟩
          intro j hj
          rcases Nat.lt_succ_iff_lt_or_eq.mp hj with hlt | rfl
          · exact hnone j hlt
          · exact hlast

theorem get_load_of_not_lands {m : Memory} {bs : List Byte} {offset a : Address}
    (h : ∀ j < bs.length, ¬Lands offset j a) : (m.load bs offset).get a = m.get a := by
  rcases m.get_load bs offset a with ⟨j, hj, -⟩ | ⟨-, hkept⟩
  · exact absurd hj.1.2 (h j hj.1.1)
  · exact hkept

/-- Where a row lands, what was there before plays no part. -/
theorem get_load_congr {bs : List Byte} {offset a : Address}
    (h : ∃ j < bs.length, Lands offset j a) (m n : Memory) :
    (m.load bs offset).get a = (n.load bs offset).get a := by
  obtain ⟨j, hj, hlands⟩ := h
  rcases m.get_load bs offset a with ⟨i, hi, hm⟩ | ⟨hnone, -⟩
  · rcases n.get_load bs offset a with ⟨i', hi', hn⟩ | ⟨hnone, -⟩
    · rw [hi.unique hi', hn] at hm
      exact (Option.some.inj hm).symm
    · exact absurd hlands (hnone j hj)
  · exact absurd hlands (hnone j hj)

/-- **Loads that do not meet may come in either order.** -/
theorem load_comm (m : Memory) {bs cs : List Byte} {offset offset' : Address}
    (h : ∀ i < bs.length, ∀ j < cs.length,
      (offset.toNat + i) % 65536 ≠ (offset'.toNat + j) % 65536) :
    (m.load bs offset).load cs offset' = (m.load cs offset').load bs offset := by
  refine Memory.ext fun a => ?_
  by_cases hcs : ∃ j < cs.length, Lands offset' j a
  · have hbs : ∀ i < bs.length, ¬Lands offset i a := by
      obtain ⟨j, hj, hlands⟩ := hcs
      exact fun i hi hlands' => h i hi j hj (hlands'.trans hlands.symm)
    rw [get_load_of_not_lands hbs]
    exact get_load_congr hcs _ _
  · have hnone : ∀ j < cs.length, ¬Lands offset' j a := fun j hj hlands => hcs ⟨j, hj, hlands⟩
    rw [get_load_of_not_lands hnone]
    by_cases hbs : ∃ i < bs.length, Lands offset i a
    · exact get_load_congr hbs _ _
    · have hnone' : ∀ i < bs.length, ¬Lands offset i a := fun i hi hlands => hbs ⟨i, hi, hlands⟩
      rw [get_load_of_not_lands hnone', get_load_of_not_lands hnone',
        get_load_of_not_lands hnone]

/-! ### What loading does -/

/--
**The last writer wins, around the end of memory.**  After a load, a cell holds the byte of
the last place of the row that lands in it, counted from the first cell around the end of
memory, and what it held before if there is none.  The row may be longer than memory.  Rows
loaded one behind the other are loaded as one, and rows that land in no cell together may
be loaded in either order.
-/
theorem load_keeps_last (m : Memory) (bs : List Byte) (offset : Address) :
    (∀ a,
      (∃ j, IsGreatest {i | i < bs.length ∧ (offset.toNat + i) % 65536 = a.toNat} j ∧
        bs[j]? = some ((m.load bs offset).get a)) ∨
      ((∀ j < bs.length, (offset.toNat + j) % 65536 ≠ a.toNat) ∧
        (m.load bs offset).get a = m.get a)) ∧
    (∀ cs, m.load (bs ++ cs) offset =
      (m.load bs offset).load cs (UInt16.ofNat ((offset.toNat + bs.length) % 65536))) ∧
    ∀ cs offset',
      (∀ i < bs.length, ∀ j < cs.length,
        (offset.toNat + i) % 65536 ≠ (offset'.toNat + j) % 65536) →
      (m.load bs offset).load cs offset' = (m.load cs offset').load bs offset := by
  refine ⟨fun a => m.get_load bs offset a, ?_, fun cs offset' => m.load_comm⟩
  intro cs
  have hnext : UInt16.ofNat ((offset.toNat + bs.length) % 65536) =
      offset + UInt16.ofNat bs.length := by
    refine (lands_iff.mp ?_).symm
    rw [Lands, UInt16.toNat_ofNat', Nat.mod_mod]
  rw [hnext, load_append]

/-- A row that is one byte longer than memory and starts in the last cell. -/
def overlong : List Byte := List.replicate 65536 0x11 ++ [0x22]

/-- Its last byte is around the whole of memory, on top of its first. -/
theorem load_keeps_last_overlong :
    (zero.load overlong 0xFFFF).get 0xFFFF = 0x22 ∧
    (zero.load overlong 0xFFFF).get 0x0000 = 0x11 ∧
    zero.load ([0x01, 0x02] ++ [0x03]) 0xFFFF = (zero.load [0x01, 0x02] 0xFFFF).load [0x03] 0x0001 ∧
    (∀ i < [(0x01 : Byte), 0x02].length, ∀ j < [(0x03 : Byte)].length,
      ((0xFFFF : Address).toNat + i) % 65536 ≠ ((0x0001 : Address).toNat + j) % 65536) ∧
    (zero.load [0x01, 0x02] 0xFFFF).load [0x03] 0x0001 =
      (zero.load [0x03] 0x0001).load [0x01, 0x02] 0xFFFF := by
  have hlength : overlong.length = 65537 := by
    rw [overlong, List.length_append, List.length_replicate, List.length_singleton]
  have hstart : (0xFFFF : Address).toNat = 65535 := rfl
  have hzero : (0x0000 : Address).toNat = 0 := rfl
  have hapart : ∀ i < [(0x01 : Byte), 0x02].length, ∀ j < [(0x03 : Byte)].length,
      ((0xFFFF : Address).toNat + i) % 65536 ≠ ((0x0001 : Address).toNat + j) % 65536 := by
    decide
  obtain ⟨hlong, -, -⟩ := load_keeps_last zero overlong 0xFFFF
  obtain ⟨-, hjoined, hswapped⟩ := load_keeps_last zero [0x01, 0x02] 0xFFFF
  refine ⟨?_, ?_, hjoined [0x03], hapart, hswapped [0x03] 0x0001 hapart⟩
  · rcases hlong 0xFFFF with ⟨j, ⟨hj, hlast⟩, hbyte⟩ | ⟨hnone, -⟩
    · have hwhole : 65536 < overlong.length ∧
          ((0xFFFF : Address).toNat + 65536) % 65536 = (0xFFFF : Address).toNat := by
        omega
      have hle : 65536 ≤ j := hlast hwhole
      have hlt : j < overlong.length := hj.1
      obtain rfl : j = 65536 := by omega
      rw [overlong, List.getElem?_append_right (Nat.le_of_eq List.length_replicate),
        List.length_replicate, Nat.sub_self] at hbyte
      exact (Option.some.inj hbyte).symm
    · exact absurd rfl (hnone 0 (by omega))
  · rcases hlong 0x0000 with ⟨j, ⟨hj, -⟩, hbyte⟩ | ⟨hnone, -⟩
    · have hlt : j < overlong.length := hj.1
      have hlands : ((0xFFFF : Address).toNat + j) % 65536 = (0x0000 : Address).toNat := hj.2
      obtain rfl : j = 1 := by omega
      rw [overlong, List.getElem?_append_left (by rw [List.length_replicate]; omega),
        List.getElem?_replicate_of_lt (by omega)] at hbyte
      exact (Option.some.inj hbyte).symm
    · exact absurd (by rw [hstart, hzero]) (hnone 1 (by omega))

end Memory

end Nmos6502
