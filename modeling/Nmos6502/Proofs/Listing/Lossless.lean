/-
A listing says what the code is, and nothing else.

`Listing.extent` is how far a listing reaches from its first address, which is past the
end of its range.  Two listings of one range are the same, addresses and texts, exactly
when the two buses agree on the bytes that the first one reaches, `entries_eq_iff`.  From
left to right the texts give the bytes back, one line after another, and with the bytes
the place of the next line; from right to left the bytes make the lines, whatever index
registers the operands are resolved with and whatever the rest of memory holds.

Both directions are one induction along the first sweep, since each line decides where
either sweep goes on.
-/
import Nmos6502.Proofs.Listing.Sweep

namespace Nmos6502

section

variable {σ τ : Type} [Bus σ] [Bus τ]

/-- What a listing shows of a line. -/
def Line.entry (line : Line) : Address × String := (line.address, line.text)

/-- Where the bytes under a line agree, so do the lines' bytes. -/
theorem bytes_lineAt_of_readBytes {bus : σ} {bus' : τ} {a : Address} {x y : Byte} (x' y' : Byte)
    (h : Bus.readBytes bus a (lineAt bus a x y).size =
      Bus.readBytes bus' a (lineAt bus a x y).size) :
    (lineAt bus a x y).bytes = (lineAt bus' a x' y').bytes := by
  have hread : Bus.read bus a = Bus.read bus' a := by
    have hzero := (Bus.readBytes_eq_iff bus bus' a _).mp h 0 (Line.size_pos _)
    rwa [show UInt16.ofNat 0 = 0 from rfl, UInt16.add_zero] at hzero
  have hsize : (lineAt bus a x y).size = (lineAt bus' a x' y').size := by
    rw [size_lineAt, size_lineAt, hread]
  rw [bytes_lineAt, bytes_lineAt, ← hsize, h]

/-- **Two sweeps from one cursor show the same exactly when they run over the same bytes.** -/
theorem entries_sweepLines_eq_iff (bus : σ) (bus' : τ) (x y x' y' : Byte) (last : Nat) :
    ∀ cursor,
      (sweepLines bus x y last cursor).map Line.entry =
          (sweepLines bus' x' y' last cursor).map Line.entry ↔
        Bus.readBytes bus (UInt16.ofNat cursor) (covered (sweepLines bus x y last cursor)) =
          Bus.readBytes bus' (UInt16.ofNat cursor) (covered (sweepLines bus x y last cursor)) := by
  refine sweep_induction bus x y last ?_ ?_
  · intro cursor hlt
    rw [sweepLines_of_lt hlt, sweepLines_of_lt hlt]
    exact ⟨fun _ => rfl, fun _ => rfl⟩
  · intro cursor hle ih
    rw [sweepLines_of_le hle, sweepLines_of_le hle, covered_cons, Bus.readBytes_add,
      Bus.readBytes_add, List.map_cons, List.map_cons, ← UInt16.ofNat_add]
    set a := UInt16.ofNat cursor with ha
    have hsize : (lineAt bus a x y).bytes = (lineAt bus' a x' y').bytes →
        (lineAt bus a x y).size = (lineAt bus' a x' y').size := by
      intro hbytes
      rw [← Line.length_bytes, hbytes, Line.length_bytes]
    constructor
    · intro h
      obtain ⟨hhead, htail⟩ := List.cons.inj h
      have hbytes := bytes_of_text (congrArg Prod.snd hhead)
      rw [← hsize hbytes] at htail
      rw [ih.mp htail, ← bytes_lineAt, hbytes, bytes_lineAt, ← hsize hbytes]
    · intro h
      obtain ⟨hhead, htail⟩ := List.append_inj h
        (by rw [Bus.length_readBytes, Bus.length_readBytes])
      have hbytes := bytes_lineAt_of_readBytes x' y' hhead
      have hentry : (lineAt bus a x y).entry = (lineAt bus' a x' y').entry :=
        Prod.ext (by rw [Line.entry, Line.entry, address_lineAt, address_lineAt])
          (text_of_bytes hbytes)
      rw [hentry, ← hsize hbytes, ih.mpr htail]

/-! ### The extent of a listing -/

/--
How many bytes lie from the first address of a listing to the last operand byte of its
last line.
-/
def Listing.extent (l : Listing) (start : Address) : Nat :=
  match l.lines.toList.getLast? with
  | some line => line.address.toNat + line.size - start.toNat
  | none => 0

theorem extent_disassemble (bus : σ) (start last : Address) (x y : Byte) :
    (disassemble bus start last x y).extent start =
      covered (sweepLines bus x y last.toNat start.toNat) := by
  rw [Listing.extent, toList_lines_disassemble]
  by_cases hle : start.toNat ≤ last.toNat
  · obtain ⟨line, hline, hend⟩ := last_sweepLines bus x y last.toNat_lt start.toNat hle
    rw [hline]
    show line.address.toNat + line.size - start.toNat = _
    omega
  · rw [sweepLines_of_lt (by omega)]
    rfl

/--
**A listing determines the code that it covers, and the code the listing.**  A listing
reaches past the end of its range.  Listings of one range over two buses, under any index
registers, have the same addresses and the same texts exactly when the buses agree on every
byte from the start to the last operand byte of the first listing's last line, around the
end of memory if need be.
-/
theorem entries_eq_iff (bus : σ) (bus' : τ) (start last : Address) (x y x' y' : Byte) :
    let l := disassemble bus start last x y
    last.toNat < start.toNat + l.extent start ∧
    (l.entries = (disassemble bus' start last x' y').entries ↔
      ∀ i < l.extent start,
        Bus.read bus (start + UInt16.ofNat i) = Bus.read bus' (start + UInt16.ofNat i)) := by
  intro l
  have hextent : l.extent start = covered (sweepLines bus x y last.toNat start.toNat) :=
    extent_disassemble bus start last x y
  have hsweep := entries_sweepLines_eq_iff bus bus' x y x' y' last.toNat start.toNat
  rw [UInt16.ofNat_toNat, Bus.readBytes_eq_iff] at hsweep
  rw [hextent]
  refine ⟨lt_add_covered_sweepLines bus x y last.toNat start.toNat, ?_⟩
  rw [← hsweep, Listing.entries, Listing.entries, ← Array.toList_inj, Array.toList_map,
    Array.toList_map, toList_lines_disassemble, toList_lines_disassemble]
  exact Iff.rfl

end

/-- An instruction whose operand byte lies behind the end of the range `0` to `0`. -/
def loadingFive : Memory := Memory.zero.load [0xA9, 0x05] 0x0000

theorem extent_loadingFive : (disassemble loadingFive 0 0 0 0).extent 0 = 2 := by
  have hload : Opcode.lookup 0xA9 = some ⟨.lda, .immediate, 2⟩ := by decide +kernel
  have hfirst : Bus.read loadingFive (UInt16.ofNat 0) = 0xA9 := by
    simp [loadingFive, Memory.get_set]
  have hsize : (lineAt loadingFive (UInt16.ofNat 0) 0 0).size = 2 := by
    rw [size_lineAt, hfirst, hload]
    rfl
  rw [extent_disassemble]
  show covered (sweepLines loadingFive 0 0 0 0) = 2
  rw [sweepLines_of_le (Nat.le_refl 0), covered_cons, hsize, sweepLines_of_lt (by decide)]
  rfl

/--
The listing of one address reaches to the operand byte behind it.  It changes with that
byte, and stays what it is when the byte behind the operand or an index register changes.
-/
theorem entries_eq_iff_lastOperand :
    let l := disassemble loadingFive 0 0 0 0
    l.extent 0 = 2 ∧
    l.entries ≠ (disassemble (loadingFive.set 1 0x06) 0 0 0 0).entries ∧
    l.entries = (disassemble (loadingFive.set 2 0x06) 0 0 0x10 0x20).entries := by
  intro l
  have hextent : l.extent 0 = 2 := extent_loadingFive
  obtain ⟨-, hoperand⟩ := entries_eq_iff loadingFive (loadingFive.set 1 0x06) 0 0 0 0 0 0
  obtain ⟨-, hbehind⟩ := entries_eq_iff loadingFive (loadingFive.set 2 0x06) 0 0 0 0 0x10 0x20
  refine ⟨hextent, ?_, ?_⟩
  · intro hsame
    have hbyte := hoperand.mp hsame 1 (by rw [hextent]; decide)
    simp [loadingFive] at hbyte
  · refine hbehind.mpr fun i hi => ?_
    have hlt : i < 2 := hextent ▸ hi
    have hne : (2 : Address) ≠ 0 + UInt16.ofNat i := by
      rcases Nat.lt_succ_iff_lt_or_eq.mp hlt with hzero | rfl
      · obtain rfl := Nat.lt_one_iff.mp hzero
        decide
      · decide
    exact (Memory.get_set_ne _ hne _).symm

end Nmos6502
