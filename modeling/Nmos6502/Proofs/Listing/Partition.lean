/-
A listing cuts its range into lines.

`Tiles lo lines hi` says that a row of lines lies end to end from place `lo` to place
`hi`, places being numbers that do not wrap.  The lines of a sweep do, from the cursor
to the first place behind the range that no line reaches, and what can be said about the
places of a listing follows from that alone: the addresses rise, no two lines share a
byte, and every byte of the range is in a line.

A reader may keep the texts in a table by address and only the addresses in a row.
`Listing.lookedUp` reads such a table back along the row; because the addresses rise,
no line takes another's place in it, and none is missed.
-/
import Mathlib.Logic.Function.Basic
import Nmos6502.Proofs.Listing.Sweep

namespace Nmos6502

/-! ### Lines that lie end to end -/

/-- The byte at a place is one of the line's. -/
def Line.Covers (line : Line) (place : Nat) : Prop :=
  line.address.toNat ≤ place ∧ place < line.address.toNat + line.size

theorem Line.covers_address (line : Line) : line.Covers line.address.toNat :=
  ⟨Nat.le_refl _, Nat.lt_add_of_pos_right line.size_pos⟩

/-- A row of lines, each of which starts where the one before it ends. -/
inductive Tiles : (lo : Nat) → List Line → (hi : Nat) → Prop
  | nil (lo : Nat) : Tiles lo [] lo
  | cons {lo hi : Nat} {line : Line} {lines : List Line} (haddress : line.address.toNat = lo)
      (hrest : Tiles (lo + line.size) lines hi) : Tiles lo (line :: lines) hi

namespace Tiles

variable {lo hi : Nat} {lines : List Line}

theorem le_address (h : Tiles lo lines hi) : ∀ line ∈ lines, lo ≤ line.address.toNat := by
  induction h with
  | nil lo => intro line hline; exact absurd hline List.not_mem_nil
  | cons haddress _ ih =>
      intro line hline
      rcases List.mem_cons.mp hline with rfl | hmem
      · exact Nat.le_of_eq haddress.symm
      · exact Nat.le_of_add_right_le (ih line hmem)

/-- Every line ends before any later one starts. -/
theorem pairwise (h : Tiles lo lines hi) :
    lines.Pairwise fun line later => line.address.toNat + line.size ≤ later.address.toNat := by
  induction h with
  | nil lo => exact List.Pairwise.nil
  | cons haddress hrest ih =>
      refine List.pairwise_cons.mpr ⟨?_, ih⟩
      rw [haddress]
      exact hrest.le_address

/-- Neighbours leave no gap. -/
theorem address_next (h : Tiles lo lines hi) :
    ∀ {i : Nat} {line next : Line}, lines[i]? = some line → lines[i + 1]? = some next →
      next.address.toNat = line.address.toNat + line.size := by
  induction h with
  | nil lo => intro i line next hline; exact absurd hline (by simp)
  | cons haddress hrest ih =>
      intro i line next hline hnext
      cases i with
      | succ i => exact ih hline hnext
      | zero =>
          obtain rfl := Option.some.inj hline
          cases hrest with
          | nil => exact absurd hnext (by simp)
          | cons hadjacent _ =>
              obtain rfl := Option.some.inj hnext
              rw [hadjacent, haddress]

/-- Every place between the two ends is in a line. -/
theorem exists_covers (h : Tiles lo lines hi) {place : Nat} (hlo : lo ≤ place)
    (hhi : place < hi) : ∃ line ∈ lines, line.Covers place := by
  induction h with
  | nil lo => omega
  | @cons lo hi line lines haddress _ ih =>
      by_cases hin : place < lo + line.size
      · exact ⟨line, List.mem_cons_self, by rw [haddress]; exact hlo, by rw [haddress]; exact hin⟩
      · obtain ⟨other, hmem, hcovers⟩ := ih (Nat.le_of_not_lt hin) hhi
        exact ⟨other, List.mem_cons_of_mem _ hmem, hcovers⟩

/-- No place is in two lines. -/
theorem covers_unique (h : Tiles lo lines hi) {place : Nat} :
    ∀ line ∈ lines, ∀ other ∈ lines, line.Covers place → other.Covers place → line = other := by
  induction h with
  | nil lo => intro line hline; exact absurd hline List.not_mem_nil
  | cons haddress hrest ih =>
      intro line hline other hother hcovers hcovers'
      obtain ⟨hle, hlt⟩ := hcovers
      obtain ⟨hle', hlt'⟩ := hcovers'
      rcases List.mem_cons.mp hline with rfl | hmem <;>
        rcases List.mem_cons.mp hother with rfl | hmem'
      · rfl
      · have := hrest.le_address other hmem'
        omega
      · have := hrest.le_address line hmem
        omega
      · exact ih line hmem other hmem' ⟨hle, hlt⟩ ⟨hle', hlt'⟩

/-- No two lines have one address. -/
theorem eq_of_address_eq (h : Tiles lo lines hi) {line other : Line} (hline : line ∈ lines)
    (hother : other ∈ lines) (haddress : line.address = other.address) : line = other :=
  h.covers_unique line hline other hother line.covers_address
    (haddress ▸ other.covers_address)

end Tiles

/-! ### The lines of a sweep lie end to end -/

section

variable {σ : Type} [Bus σ]

theorem toNat_address_lineAt (bus : σ) (x y : Byte) {cursor : Nat} (h : cursor < 65536) :
    (lineAt bus (UInt16.ofNat cursor) x y).address.toNat = cursor := by
  rw [address_lineAt, UInt16.toNat_ofNat']
  exact Nat.mod_eq_of_lt h

/-- **The lines of a sweep lie end to end**, from the cursor on. -/
theorem tiles_sweepLines (bus : σ) (x y : Byte) {last : Nat} (hlast : last < 65536) :
    ∀ cursor, Tiles cursor (sweepLines bus x y last cursor)
      (cursor + covered (sweepLines bus x y last cursor)) := by
  refine sweep_induction bus x y last ?_ ?_
  · intro cursor hlt
    rw [sweepLines_of_lt hlt]
    exact .nil cursor
  · intro cursor hle ih
    rw [sweepLines_of_le hle, covered_cons, ← Nat.add_assoc]
    exact .cons (toNat_address_lineAt bus x y (by omega)) ih

/-- Every line of a sweep is the one at some place up to the end. -/
theorem forall_mem_sweepLines {P : Line → Prop} (bus : σ) (x y : Byte) {last : Nat}
    (h : ∀ cursor ≤ last, P (lineAt bus (UInt16.ofNat cursor) x y)) :
    ∀ cursor, ∀ line ∈ sweepLines bus x y last cursor, P line := by
  refine sweep_induction bus x y last ?_ ?_
  · intro cursor hlt line hline
    rw [sweepLines_of_lt hlt] at hline
    exact absurd hline List.not_mem_nil
  · intro cursor hle ih line hline
    rw [sweepLines_of_le hle] at hline
    rcases List.mem_cons.mp hline with rfl | hmem
    · exact h cursor hle
    · exact ih line hmem

/-- A sweep takes no line that starts past the end. -/
theorem address_le_of_mem_sweepLines (bus : σ) (x y : Byte) {last : Nat} (hlast : last < 65536) :
    ∀ cursor, ∀ line ∈ sweepLines bus x y last cursor, line.address.toNat ≤ last := by
  apply forall_mem_sweepLines
  intro cursor hle
  rw [toNat_address_lineAt bus x y (by omega)]
  exact hle

/-- Every line of a sweep is the one that decoding gives at its address. -/
theorem eq_lineAt_of_mem_sweepLines (bus : σ) (x y : Byte) (last : Nat) :
    ∀ cursor, ∀ line ∈ sweepLines bus x y last cursor, line = lineAt bus line.address x y := by
  apply forall_mem_sweepLines
  intro cursor _
  rw [address_lineAt]

/-- There are no more lines than bytes left to cover. -/
theorem length_sweepLines_le (bus : σ) (x y : Byte) (last : Nat) :
    ∀ cursor, (sweepLines bus x y last cursor).length ≤ last + 1 - cursor := by
  refine sweep_induction bus x y last ?_ ?_
  · intro cursor hlt
    rw [sweepLines_of_lt hlt]
    exact Nat.zero_le _
  · intro cursor hle ih
    have hpos := (lineAt bus (UInt16.ofNat cursor) x y).size_pos
    rw [sweepLines_of_le hle, List.length_cons]
    omega

end

/-! ### Lines kept in a table -/

/-- A table of texts by address, after a line has been put in place of any with its address. -/
def Line.putInto (t : Address → Option String) (line : Line) : Address → Option String :=
  Function.update t line.address (some line.text)

namespace Listing

/-- The table that is left when the lines have been put in one after another. -/
def table (l : Listing) : Address → Option String :=
  l.lines.toList.foldl Line.putInto fun _ => none

/-- What one reads who goes along the row of addresses and looks each one up in the table. -/
def lookedUp (l : Listing) : List (Address × String) :=
  l.order.toList.filterMap fun a => (l.table a).map fun text => (a, text)

theorem text?_eq_find? (l : Listing) (a : Address) :
    l.text? a = (l.lines.toList.find? fun line => line.address == a).map Line.text := by
  rw [text?, Array.find?_toList]

theorem toList_order (l : Listing) : l.order.toList = l.lines.toList.map Line.address :=
  Array.toList_map

/-- A look-up by address succeeds where a line starts, and nowhere else. -/
theorem isSome_text? (l : Listing) (a : Address) : (l.text? a).isSome ↔ a ∈ l.order := by
  rw [text?_eq_find?, Option.isSome_map, List.find?_isSome, ← Array.mem_toList_iff, toList_order,
    List.mem_map]
  simp only [beq_iff_eq]

end Listing

/-- Where no two lines have one address, putting them into a table overwrites none of them. -/
theorem foldl_putInto_eq {lines : List Line}
    (h : lines.Pairwise fun line later => line.address ≠ later.address) (a : Address) :
    ∀ t : Address → Option String, lines.foldl Line.putInto t a =
      ((lines.find? fun line => line.address == a).map Line.text).or (t a) := by
  induction h with
  | nil => intro t; rfl
  | @cons line lines hhead _ ih =>
      intro t
      rw [List.foldl_cons, ih]
      by_cases haddress : line.address = a
      · have hnone : lines.find? (fun later => later.address == a) = none := by
          rw [List.find?_eq_none]
          intro later hlater heq
          exact hhead later hlater (haddress.trans (eq_of_beq heq).symm)
        rw [hnone, List.find?_cons_of_pos (by simpa using haddress), Line.putInto, haddress,
          Function.update_self]
        rfl
      · rw [List.find?_cons_of_neg (by simpa using haddress), Line.putInto,
          Function.update_of_ne (Ne.symm haddress)]

theorem find?_address_of_tiles {lo hi : Nat} {lines : List Line} (h : Tiles lo lines hi)
    {line : Line} (hline : line ∈ lines) :
    lines.find? (fun other => other.address == line.address) = some line := by
  cases hfind : lines.find? (fun other => other.address == line.address) with
  | none => exact absurd (List.find?_eq_none.mp hfind line hline) (by simp)
  | some other =>
      have haddress : other.address = line.address := by
        simpa using List.find?_some hfind
      rw [h.eq_of_address_eq (List.mem_of_find?_eq_some hfind) hline haddress]

theorem table_eq_text? {l : Listing} {lo hi : Nat} (h : Tiles lo l.lines.toList hi)
    (a : Address) : l.table a = l.text? a := by
  have hdistinct : l.lines.toList.Pairwise fun line later => line.address ≠ later.address := by
    refine h.pairwise.imp ?_
    intro line later hends heq
    have hpos := line.size_pos
    rw [heq] at hends
    omega
  rw [Listing.table, foldl_putInto_eq hdistinct, Listing.text?_eq_find?, Option.or_none]

/-- **A table of lines that lie end to end gives every one of them back**, in their order. -/
theorem lookedUp_eq_entries {l : Listing} {lo hi : Nat} (h : Tiles lo l.lines.toList hi) :
    l.lookedUp = l.entries.toList := by
  have hentry : ∀ line ∈ l.lines.toList,
      ((fun a => (l.table a).map fun text => (a, text)) ∘ Line.address) line =
        some (line.address, line.text) := by
    intro line hline
    show (l.table line.address).map _ = _
    rw [table_eq_text? h, Listing.text?_eq_find?, find?_address_of_tiles h hline]
    rfl
  rw [Listing.lookedUp, Listing.toList_order, List.filterMap_map, List.filterMap_congr hentry,
    List.filterMap_eq_map', Listing.entries, Array.toList_map]

/-! ### A listing cuts its range into lines -/

section

variable {σ : Type} [Bus σ]

/--
A listing as a cut of the range from `start` to `last` into lines.  Places are compared
as numbers, so nothing here comes about by wrapping around the end of memory.
-/
structure Listing.Cuts (l : Listing) (bus : σ) (start last : Address) (x y : Byte) : Prop where
  /-- An empty range has no lines. -/
  empty : last < start → l.isEmpty = true
  /-- Any other has a line at its first address. -/
  first : start ≤ last → l.order[0]? = some start
  /-- The bytes of the last line reach past the range. -/
  final : start ≤ last → ∃ line, l.lines.back? = some line ∧
    last.toNat < line.address.toNat + line.size
  /-- No line starts outside the range. -/
  inRange : ∀ a ∈ l.order, start ≤ a ∧ a ≤ last
  increasing : l.order.toList.Pairwise (· < ·)
  /-- Each line starts where the one before it ends. -/
  next : ∀ i line next, l.lines[i]? = some line → l.lines[i + 1]? = some next →
    next.address.toNat = line.address.toNat + line.size
  /-- A line has the bytes of the instruction there, or the one byte that names none. -/
  sizes : ∀ line ∈ l.lines, line.size =
    match Opcode.lookup (Bus.read bus line.address) with
    | some entry => 1 + entry.mode.operandLength
    | none => 1
  /-- Each byte of the range is in one line. -/
  covers : ∀ a, start ≤ a → a ≤ last → ∃! line, line ∈ l.lines ∧ line.Covers a.toNat
  /-- The sweep ends after at most one line for each byte. -/
  bounded : l.size ≤ last.toNat + 1 - start.toNat
  found : ∀ a, (l.text? a).isSome ↔ a ∈ l.order
  /-- In a table no line takes another's place. -/
  kept : ∀ a, l.table a = l.text? a
  /-- Going along the addresses and looking each one up gives all lines in their order. -/
  complete : l.lookedUp = l.entries.toList ∧ l.lookedUp.length = l.size
  /-- A line shows what decoding finds at its address. -/
  shows : l.entries.toList = l.order.toList.map fun a =>
    (a, match decode bus a x y with
      | some d => d.text
      | none => undefinedText a (Bus.read bus a))

theorem text_lineAt (bus : σ) (a : Address) (x y : Byte) :
    (lineAt bus a x y).text =
      match decode bus a x y with
      | some d => d.text
      | none => undefinedText a (Bus.read bus a) := by
  cases hd : decode bus a x y with
  | none => rw [lineAt_of_decode_none hd, Line.text]
  | some d => rw [lineAt_of_decode hd, Line.text]

/-- **A sweep cuts its range into lines**, each byte of the range in one of them. -/
theorem cuts_disassemble (bus : σ) (start last : Address) (x y : Byte) :
    (disassemble bus start last x y).Cuts bus start last x y := by
  set l := disassemble bus start last x y with hl
  set lines := sweepLines bus x y last.toNat start.toNat with hsweep
  have hlines : l.lines.toList = lines := toList_lines_disassemble bus start last x y
  have htiles : Tiles start.toNat l.lines.toList (start.toNat + covered lines) := by
    rw [hlines]
    exact tiles_sweepLines bus x y last.toNat_lt start.toNat
  have hpast : last.toNat < start.toNat + covered lines :=
    lt_add_covered_sweepLines bus x y last.toNat start.toNat
  have hlineAt : ∀ line ∈ l.lines.toList, line = lineAt bus line.address x y := by
    rw [hlines]
    exact eq_lineAt_of_mem_sweepLines bus x y last.toNat start.toNat
  have hsize : l.size = lines.length := by
    rw [← hlines]
    exact Array.length_toList.symm
  constructor
  case empty =>
    intro hlt
    have hnil : lines = [] := sweepLines_of_lt (UInt16.lt_iff_toNat_lt.mp hlt)
    rw [hnil, Array.toList_eq_nil_iff] at hlines
    rw [Listing.isEmpty, hlines]
    rfl
  case first =>
    intro hle
    rw [← Array.getElem?_toList, Listing.toList_order, hlines, hsweep,
      sweepLines_of_le (UInt16.le_iff_toNat_le.mp hle), List.map_cons, List.getElem?_cons_zero,
      address_lineAt, UInt16.ofNat_toNat]
  case final =>
    intro hle
    obtain ⟨line, hline, hend⟩ :=
      last_sweepLines bus x y last.toNat_lt start.toNat (UInt16.le_iff_toNat_le.mp hle)
    refine ⟨line, ?_, hend ▸ hpast⟩
    rw [← Array.getLast?_toList, hlines]
    exact hline
  case inRange =>
    intro a ha
    rw [← Array.mem_toList_iff, Listing.toList_order] at ha
    obtain ⟨line, hline, rfl⟩ := List.mem_map.mp ha
    have hge := htiles.le_address line hline
    rw [hlines] at hline
    have hle := address_le_of_mem_sweepLines bus x y last.toNat_lt start.toNat line hline
    exact ⟨UInt16.le_iff_toNat_le.mpr hge, UInt16.le_iff_toNat_le.mpr hle⟩
  case increasing =>
    rw [Listing.toList_order, List.pairwise_map]
    refine htiles.pairwise.imp ?_
    intro line later hends
    have hpos := line.size_pos
    exact UInt16.lt_iff_toNat_lt.mpr (by omega)
  case next =>
    intro i line next hline hnext
    rw [← Array.getElem?_toList] at hline hnext
    exact htiles.address_next hline hnext
  case sizes =>
    intro line hline
    have hsizeAt := size_lineAt bus line.address x y
    rw [← hlineAt line (Array.mem_toList_iff.mpr hline)] at hsizeAt
    rw [hsizeAt]
    cases Opcode.lookup (Bus.read bus line.address) with
    | none => rfl
    | some entry => rfl
  case covers =>
    intro a hge hle
    have hge := UInt16.le_iff_toNat_le.mp hge
    have hle := UInt16.le_iff_toNat_le.mp hle
    obtain ⟨line, hline, hcovers⟩ := htiles.exists_covers hge (Nat.lt_of_le_of_lt hle hpast)
    refine ⟨line, ⟨Array.mem_toList_iff.mp hline, hcovers⟩, ?_⟩
    rintro other ⟨hother, hcovers'⟩
    exact htiles.covers_unique other (Array.mem_toList_iff.mpr hother) line hline hcovers' hcovers
  case bounded =>
    rw [hsize]
    exact length_sweepLines_le bus x y last.toNat start.toNat
  case found => exact l.isSome_text?
  case kept => exact table_eq_text? htiles
  case complete =>
    refine ⟨lookedUp_eq_entries htiles, ?_⟩
    rw [lookedUp_eq_entries htiles, Listing.entries, Array.toList_map, List.length_map, hlines,
      hsize]
  case shows =>
    rw [Listing.entries, Array.toList_map, Listing.toList_order, List.map_map]
    refine List.map_congr_left ?_
    intro line hline
    have htext := text_lineAt bus line.address x y
    rw [← hlineAt line hline] at htext
    rw [htext]
    rfl

/-- A jump whose operand lies around the end of memory. -/
def jumpAtTheEnd : Memory := Memory.zero.load [0x4C] 0xFFFE

/-- The jump starts where the listing starts, and the byte behind its opcode starts no line. -/
theorem cuts_disassemble_jumpAtTheEnd :
    let l := disassemble jumpAtTheEnd 0xFFFE 0xFFFF 0 0
    (0xFFFE : Address) ≤ 0xFFFF ∧ l.order[0]? = some 0xFFFE ∧ l.text? 0xFFFF = none := by
  intro l
  have hcuts := cuts_disassemble jumpAtTheEnd 0xFFFE 0xFFFF 0 0
  have hle : (0xFFFE : Address) ≤ 0xFFFF := by decide
  have hfirst := hcuts.first hle
  refine ⟨hle, hfirst, ?_⟩
  obtain ⟨jump, hjump, haddress⟩ : ∃ line ∈ l.lines, line.address = 0xFFFE := by
    rw [Listing.order, Array.getElem?_map] at hfirst
    obtain ⟨line, hline, haddress⟩ := Option.map_eq_some_iff.mp hfirst
    exact ⟨line, Array.mem_of_getElem? hline, haddress⟩
  have hread : Bus.read jumpAtTheEnd 0xFFFE = 0x4C := Memory.get_set_self _ _ _
  have hlookup : Opcode.lookup 0x4C = some ⟨.jmp, .absolute, 3⟩ := by decide +kernel
  have hsize : jump.size = 3 := by
    have := hcuts.sizes jump hjump
    rw [haddress, hread, hlookup] at this
    exact this
  -- A line that started at the second byte would share it with the jump.
  rw [← Option.not_isSome_iff_eq_none, hcuts.found, Listing.order, Array.mem_map]
  rintro ⟨line, hline, hsecond⟩
  have hshared : jump.Covers (0xFFFF : Address).toNat := by
    rw [Line.Covers, haddress, hsize]
    decide
  have hsame : jump = line := (hcuts.covers 0xFFFF (by decide) (by decide)).unique
    ⟨hjump, hshared⟩ ⟨hline, hsecond ▸ line.covers_address⟩
  rw [← hsame, haddress] at hsecond
  exact absurd hsecond (by decide)

end

end Nmos6502
