/-
Sweeps of one memory fit together.

What a sweep takes at a cursor is decided there: neither where the sweep began nor what
it has taken plays a part, and where it is to end only says whether it goes on.  So a
later end adds lines and changes none, a listing may be cut before any of its lines, and
two sweeps that come to one address go on as one, as after code that was first taken for
data.

`sweepLines_split` is the fact behind the last two.  The first part must stop right
before the cut although its last line may reach up to there, which is why the cut has to
be at the address of a line.
-/
import Nmos6502.Proofs.Listing.Partition

namespace Nmos6502

/-- One listing behind another. -/
def Listing.append (l later : Listing) : Listing := ⟨l.lines ++ later.lines⟩

/-- The lines of a listing from an address on. -/
def Listing.fromOn (l : Listing) (a : Address) : List Line :=
  l.lines.toList.filter fun line => a ≤ line.address

section

variable {σ : Type} [Bus σ]

/-! ### A later end only adds lines -/

theorem sweepLines_prefix (bus : σ) (x y : Byte) {last last' : Nat} (h : last ≤ last') :
    ∀ cursor, sweepLines bus x y last cursor <+: sweepLines bus x y last' cursor := by
  refine sweep_induction bus x y last ?_ ?_
  · intro cursor hlt
    rw [sweepLines_of_lt hlt]
    exact List.nil_prefix
  · intro cursor hle ih
    rw [sweepLines_of_le hle, sweepLines_of_le (Nat.le_trans hle h)]
    exact (List.prefix_cons_inj _).mpr ih

/-! ### A sweep may be cut before any of its lines -/

/-- **Before a line that is not its first, a sweep is two sweeps.** -/
theorem sweepLines_split (bus : σ) (x y : Byte) {last : Nat} (hlast : last < 65536) :
    ∀ cursor, ∀ line ∈ sweepLines bus x y last cursor, cursor < line.address.toNat →
      sweepLines bus x y last cursor =
        sweepLines bus x y (line.address.toNat - 1) cursor ++
          sweepLines bus x y last line.address.toNat := by
  refine sweep_induction bus x y last ?_ ?_
  · intro cursor hlt line hline
    rw [sweepLines_of_lt hlt] at hline
    exact absurd hline List.not_mem_nil
  · intro cursor hle ih line hline hbehind
    rw [sweepLines_of_le hle] at hline
    set head := lineAt bus (UInt16.ofNat cursor) x y with hhead
    have hmem : line ∈ sweepLines bus x y last (cursor + head.size) := by
      rcases List.mem_cons.mp hline with rfl | hmem
      · have haddress : head.address.toNat = cursor := toNat_address_lineAt bus x y (by omega)
        omega
      · exact hmem
    have hnext := (tiles_sweepLines bus x y hlast (cursor + head.size)).le_address line hmem
    have hfirst : sweepLines bus x y (line.address.toNat - 1) cursor =
        head :: sweepLines bus x y (line.address.toNat - 1) (cursor + head.size) :=
      sweepLines_of_le (by omega)
    rw [sweepLines_of_le hle, hfirst, ← hhead, List.cons_append]
    congr 1
    rcases Nat.eq_or_lt_of_le hnext with hadjacent | hlater
    · -- The head reaches up to the cut, so nothing is left for the first part.
      have hpos := head.size_pos
      have hnone : sweepLines bus x y (line.address.toNat - 1) (cursor + head.size) = [] :=
        sweepLines_of_lt (by omega)
      rw [hnone, ← hadjacent, List.nil_append]
    · exact ih line hmem hlater

/-- Behind the lines with smaller addresses, a sweep is the one from the line on. -/
theorem exists_front_sweepLines (bus : σ) (x y : Byte) {last : Nat} (hlast : last < 65536)
    {cursor : Nat} {line : Line} (hline : line ∈ sweepLines bus x y last cursor) :
    ∃ front, sweepLines bus x y last cursor =
        front ++ sweepLines bus x y last line.address.toNat ∧
      ∀ earlier ∈ front, earlier.address.toNat < line.address.toNat := by
  have hge := (tiles_sweepLines bus x y hlast cursor).le_address line hline
  rcases Nat.eq_or_lt_of_le hge with hfirst | hbehind
  · refine ⟨[], ?_, ?_⟩
    · rw [← hfirst, List.nil_append]
    · intro earlier hearlier
      exact absurd hearlier List.not_mem_nil
  · refine ⟨_, sweepLines_split bus x y hlast cursor line hline hbehind, ?_⟩
    intro earlier hearlier
    have hlt := line.address.toNat_lt
    have hle := address_le_of_mem_sweepLines bus x y (by omega) cursor earlier hearlier
    omega

/-! ### The listings -/

theorem mem_order_disassemble {bus : σ} {start last a : Address} {x y : Byte} :
    a ∈ (disassemble bus start last x y).order ↔
      ∃ line ∈ sweepLines bus x y last.toNat start.toNat, line.address = a := by
  rw [← Array.mem_toList_iff, Listing.toList_order, toList_lines_disassemble, List.mem_map]

/-- **From an address in it on, a listing is the listing of the rest**, wherever it starts. -/
theorem fromOn_disassemble {bus : σ} {start last a : Address} {x y : Byte}
    (h : a ∈ (disassemble bus start last x y).order) :
    (disassemble bus start last x y).fromOn a = (disassemble bus a last x y).lines.toList := by
  obtain ⟨line, hline, rfl⟩ := mem_order_disassemble.mp h
  obtain ⟨front, hsplit, hfront⟩ := exists_front_sweepLines bus x y last.toNat_lt hline
  rw [Listing.fromOn, toList_lines_disassemble, toList_lines_disassemble, hsplit,
    List.filter_append]
  have hnone : front.filter (fun earlier => line.address ≤ earlier.address) = [] := by
    rw [List.filter_eq_nil_iff]
    intro earlier hearlier hge
    have := UInt16.le_iff_toNat_le.mp (of_decide_eq_true hge)
    exact absurd (hfront earlier hearlier) (Nat.not_lt.mpr this)
  have hall : (sweepLines bus x y last.toNat line.address.toNat).filter
      (fun later => line.address ≤ later.address) =
        sweepLines bus x y last.toNat line.address.toNat := by
    rw [List.filter_eq_self]
    intro later hlater
    have := (tiles_sweepLines bus x y last.toNat_lt _).le_address later hlater
    exact decide_eq_true (UInt16.le_iff_toNat_le.mpr this)
  rw [hnone, hall, List.nil_append]

/--
**Listings of one memory fit together.**  A listing with a later end begins with the
listing.  Before each of its lines but the first, a listing is the listing up to there
and the listing from there on.  Two listings with one end that both have a line at an
address have the same lines from there on.
-/
theorem disassemble_composes (bus : σ) (start last : Address) (x y : Byte) :
    let l := disassemble bus start last x y
    (∀ last', last ≤ last' →
      l.lines.toList <+: (disassemble bus start last' x y).lines.toList) ∧
    (∀ m ∈ l.order, start < m →
      l = (disassemble bus start (m - 1) x y).append (disassemble bus m last x y)) ∧
    ∀ start' a, a ∈ l.order → a ∈ (disassemble bus start' last x y).order →
      l.fromOn a = (disassemble bus start' last x y).fromOn a := by
  intro l
  refine ⟨?_, ?_, ?_⟩
  · intro last' hle
    exact sweepLines_prefix bus x y (UInt16.le_iff_toNat_le.mp hle) start.toNat
  · intro m hm hlt
    obtain ⟨line, hline, rfl⟩ := mem_order_disassemble.mp hm
    have hlt := UInt16.lt_iff_toNat_lt.mp hlt
    have hpos : (1 : Address) ≤ line.address :=
      UInt16.le_iff_toNat_le.mpr (Nat.lt_of_le_of_lt (Nat.zero_le _) hlt)
    have hbefore : (line.address - 1).toNat = line.address.toNat - 1 :=
      UInt16.toNat_sub_of_le _ _ hpos
    have hsplit := sweepLines_split bus x y last.toNat_lt start.toNat line hline hlt
    rw [← hbefore] at hsplit
    refine congrArg Listing.mk (Array.toList_inj.mp ?_)
    rw [Array.toList_append]
    exact hsplit
  · intro start' a ha ha'
    rw [fromOn_disassemble ha, fromOn_disassemble ha']

/-- A load whose operand byte is an instruction when one starts there. -/
def readTwoWays : Memory := Memory.zero.load [0xA9, 0xEA, 0xEA] 0x0000

theorem size_lineAt_readTwoWays :
    (lineAt readTwoWays (UInt16.ofNat 0) 0 0).size = 2 ∧
      (lineAt readTwoWays (UInt16.ofNat 1) 0 0).size = 1 := by
  have hload : Opcode.lookup 0xA9 = some ⟨.lda, .immediate, 2⟩ := by decide +kernel
  have hidle : Opcode.lookup 0xEA = some ⟨.nop, .implied, 2⟩ := by decide +kernel
  have hfirst : Bus.read readTwoWays (UInt16.ofNat 0) = 0xA9 := by
    simp [readTwoWays, Memory.get_set]
  have hsecond : Bus.read readTwoWays (UInt16.ofNat 1) = 0xEA := by
    simp [readTwoWays, Memory.get_set]
  rw [size_lineAt, size_lineAt, hfirst, hsecond, hload, hidle]
  exact ⟨rfl, rfl⟩

/-- Started one byte late, a listing takes the operand for an instruction, and then agrees. -/
theorem disassemble_composes_readTwoWays :
    let l := disassemble readTwoWays 0 2 0 0
    (2 : Address) ≤ 3 ∧ l.lines.toList <+: (disassemble readTwoWays 0 3 0 0).lines.toList ∧
    2 ∈ l.order ∧ (0 : Address) < 2 ∧
    l = (disassemble readTwoWays 0 1 0 0).append (disassemble readTwoWays 2 2 0 0) ∧
    2 ∈ (disassemble readTwoWays 1 2 0 0).order ∧
    l.fromOn 2 = (disassemble readTwoWays 1 2 0 0).fromOn 2 := by
  intro l
  obtain ⟨hfirst, hsecond⟩ := size_lineAt_readTwoWays
  have hthird : lineAt readTwoWays 2 0 0 ∈ sweepLines readTwoWays 0 0 2 2 := by
    rw [sweepLines_of_le (by decide)]
    exact List.mem_cons_self
  have hmem : 2 ∈ l.order := by
    refine mem_order_disassemble.mpr ⟨lineAt readTwoWays 2 0 0, ?_, address_lineAt ..⟩
    show _ ∈ sweepLines readTwoWays 0 0 2 0
    rw [sweepLines_of_le (by decide), hfirst]
    exact List.mem_cons_of_mem _ hthird
  have hmem' : 2 ∈ (disassemble readTwoWays 1 2 0 0).order := by
    refine mem_order_disassemble.mpr ⟨lineAt readTwoWays 2 0 0, ?_, address_lineAt ..⟩
    show _ ∈ sweepLines readTwoWays 0 0 2 1
    rw [sweepLines_of_le (by decide), hsecond]
    exact List.mem_cons_of_mem _ hthird
  obtain ⟨hlonger, hcut, hagree⟩ := disassemble_composes readTwoWays 0 2 0 0
  exact ⟨by decide, hlonger 3 (by decide), hmem, by decide, hcut 2 hmem (by decide), hmem',
    hagree 1 2 hmem hmem'⟩

end

end Nmos6502
