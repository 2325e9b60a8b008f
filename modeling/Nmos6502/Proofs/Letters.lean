/-
The letters that write a status register.

Between its bars a text has parts, and each part, once the blanks around it are gone, sets
some bits: the one it names, or those of a number.  The register that is read has the bits
that some part sets and no others, however often and in whatever order the parts set them.
This says of every text which register it writes, if any; the reader's own splitting and
gathering are not mentioned in it.
-/
import Nmos6502.Status.Text

namespace Nmos6502

namespace Status

/-! ### Parts -/

/-- Whether letters without blanks around them are a part that sets exactly the bits of `p`. -/
inductive IsPart : List Char → Status → Prop
  /-- The exact name of a bit. -/
  | name (f : Flag) : IsPart f.name.toList (none.set f true)
  /-- A number after `0x`, which may have a plus sign in front of its digits. -/
  | number {digits : List Char} {b : Byte} (h : hexBits? digits = some b) :
      IsPart ('0' :: 'x' :: digits) (ofByte b)
  | plusNumber {digits : List Char} {b : Byte} (h : hexBits? digits = some b) :
      IsPart ('0' :: 'x' :: '+' :: digits) (ofByte b)

theorem eq_name_of_ofName? {name : List Char} {f : Flag} (h : Flag.ofName? name = some f) :
    name = f.name.toList := by
  have := List.find?_some h
  exact (eq_of_beq this).symm

/-- A sign is no digit. -/
theorem hexBits?_plus (digits : List Char) : hexBits? ('+' :: digits) = Option.none := by
  simp [hexBits?, hexValue?]

theorem readPart?_eq_some_iff {part : List Char} {p : Status} :
    readPart? part = some p ↔ IsPart part p := by
  constructor
  · intro h
    unfold readPart? at h
    split at h
    · obtain ⟨b, hb, rfl⟩ := Option.map_eq_some_iff.mp h
      exact .plusNumber hb
    · obtain ⟨b, hb, rfl⟩ := Option.map_eq_some_iff.mp h
      exact .number hb
    · obtain ⟨f, hf, rfl⟩ := Option.map_eq_some_iff.mp h
      rw [eq_name_of_ofName? hf]
      exact .name f
  · intro h
    cases h with
    | name f => cases f <;> decide +kernel
    | plusNumber h => simp [readPart?, h]
    | @number digits b h =>
        rw [readPart?]
        · simp [h]
        · rintro rest rfl
          rw [hexBits?_plus] at h
          exact absurd h (by simp)

/-! ### Parts between bars -/

theorem splitBars_eq_splitOn (cs : List Char) : splitBars cs = cs.splitOn '|' := by
  induction cs with
  | nil => rfl
  | cons c cs ih =>
      have hne := List.splitOnP_ne_nil (· == '|') cs
      rw [splitBars, ih, List.splitOn, List.splitOn, List.splitOnP_cons_eq_if_modifyHead]
      cases h : List.splitOnP (· == '|') cs with
      | nil => exact absurd h hne
      | cons part parts => simp

/-- No part has a bar in it. -/
theorem not_mem_of_mem_splitBars {cs row : List Char} (h : row ∈ splitBars cs) : '|' ∉ row := by
  induction cs generalizing row with
  | nil => simp_all [splitBars]
  | cons c cs ih =>
      rw [splitBars] at h
      split at h
      · rename_i hnil
        rw [splitBars_eq_splitOn, List.splitOn] at hnil
        exact absurd hnil (List.splitOnP_ne_nil _ _)
      · rename_i part parts hcons
        rw [hcons] at ih
        by_cases hc : c = '|'
        · rw [if_pos hc] at h
          rcases List.mem_cons.mp h with rfl | h
          · simp
          · exact ih h
        · rw [if_neg hc] at h
          rcases List.mem_cons.mp h with rfl | h
          · have := ih List.mem_cons_self
            simp [this, Ne.symm hc]
          · exact ih (List.mem_cons_of_mem _ h)

/-- The rows between the bars are the ones without a bar that the text consists of. -/
theorem splitBars_eq_iff {cs : List Char} {rows : List (List Char)} (hne : rows ≠ []) :
    splitBars cs = rows ↔ (∀ row ∈ rows, '|' ∉ row) ∧ ['|'].intercalate rows = cs := by
  constructor
  · rintro rfl
    refine ⟨fun row hrow => not_mem_of_mem_splitBars hrow, ?_⟩
    rw [splitBars_eq_splitOn, List.intercalate_splitOn]
  · rintro ⟨hbars, rfl⟩
    rw [splitBars_eq_splitOn, List.splitOn_intercalate _ hbars hne]

/-! ### Gathering the bits -/

theorem get_union (s t : Status) (f : Flag) : (s.union t).get f = (s.get f || t.get f) := by
  rw [union, get_assign]
  cases t.get f <;> simp

/-- Rows that are read one after the other add their bits to the ones gathered before. -/
theorem foldlM_readPart?_iff {rows : List (List Char)} {s₀ s : Status} :
    (rows.map trimBlanks).foldlM (fun s part => (readPart? part).map s.union) s₀ = some s ↔
      ∃ parts : List (List Char × Status), parts.map Prod.fst = rows ∧
        (∀ p ∈ parts, IsPart (trimBlanks p.1) p.2) ∧
        ∀ f, s.get f = (s₀.get f || parts.any fun p => p.2.get f) := by
  induction rows generalizing s₀ with
  | nil =>
      simp only [List.map_nil, List.foldlM_nil, Option.pure_def, Option.some.injEq,
        List.map_eq_nil_iff]
      constructor
      · rintro rfl
        exact ⟨[], rfl, by simp, by simp⟩
      · rintro ⟨parts, rfl, -, hbits⟩
        exact ext_get fun f => by simpa using (hbits f).symm
  | cons row rows ih =>
      rw [List.map_cons, List.foldlM_cons, Option.bind_eq_bind, Option.bind_eq_some_iff]
      constructor
      · rintro ⟨s₁, hrow, hrows⟩
        obtain ⟨p, hp, rfl⟩ := Option.map_eq_some_iff.mp hrow
        obtain ⟨parts, rfl, hparts, hbits⟩ := ih.mp hrows
        refine ⟨(row, p) :: parts, rfl, ?_, fun f => ?_⟩
        · rintro q hq
          rcases List.mem_cons.mp hq with rfl | hq
          · exact readPart?_eq_some_iff.mp hp
          · exact hparts q hq
        · rw [hbits f, get_union, List.any_cons, Bool.or_assoc]
      · rintro ⟨parts, hrows, hparts, hbits⟩
        cases parts with
        | nil => exact absurd hrows (by simp)
        | cons p parts =>
            obtain ⟨rfl, rfl⟩ := List.cons.inj hrows
            have hp := readPart?_eq_some_iff.mpr (hparts p List.mem_cons_self)
            refine ⟨s₀.union p.2, by rw [hp, Option.map_some], ih.mpr ⟨parts, rfl, ?_, fun f => ?_⟩⟩
            · exact fun q hq => hparts q (List.mem_cons_of_mem p hq)
            · rw [hbits f, get_union, List.any_cons, Bool.or_assoc]

/-! ### Which register is written -/

/-- Whether letters write a register. -/
inductive IsWrittenAs : Status → List Char → Prop
  /-- Blank letters write the register without bits. -/
  | blank {cs : List Char} (h : trimBlanks cs = []) : IsWrittenAs none cs
  /-- Other letters are parts with a bar between two, and write every bit that a part sets. -/
  | parts {s : Status} (parts : List (List Char × Status))
      (hparts : ∀ p ∈ parts, '|' ∉ p.1 ∧ IsPart (trimBlanks p.1) p.2)
      (hbits : ∀ f, s.get f = parts.any fun p => p.2.get f)
      (h : trimBlanks (['|'].intercalate (parts.map Prod.fst)) ≠ []) :
      IsWrittenAs s (['|'].intercalate (parts.map Prod.fst))

theorem get_none (f : Flag) : none.get f = false := by
  cases f <;> rfl

theorem ofLetters?_eq_some_iff {cs : List Char} {s : Status} :
    ofLetters? cs = some s ↔ s.IsWrittenAs cs := by
  constructor
  · intro h
    unfold ofLetters? at h
    split at h
    · rename_i hblank
      obtain rfl := Option.some.inj h
      exact .blank (List.isEmpty_iff.mp hblank)
    · rename_i hblank
      obtain ⟨parts, hrows, hparts, hbits⟩ := foldlM_readPart?_iff.mp h
      have hne : parts.map Prod.fst ≠ [] := by
        rw [hrows, splitBars_eq_splitOn]
        exact List.splitOnP_ne_nil _ _
      obtain ⟨hbars, rfl⟩ := (splitBars_eq_iff hne).mp hrows.symm
      refine .parts parts (fun p hp => ⟨hbars p.1 (List.mem_map_of_mem hp), hparts p hp⟩)
        (fun f => ?_) (by simpa using hblank)
      rw [hbits f, get_none, Bool.false_or]
  · intro h
    cases h with
    | blank h => simp [ofLetters?, h]
    | parts parts hparts hbits h =>
        have hne : parts.map Prod.fst ≠ [] := by
          intro hnil
          rw [hnil] at h
          exact h rfl
        have hbars : ∀ row ∈ parts.map Prod.fst, '|' ∉ row := by
          intro row hrow
          obtain ⟨p, hp, rfl⟩ := List.mem_map.mp hrow
          exact (hparts p hp).1
        have hsplit := (splitBars_eq_iff hne).mpr ⟨hbars, rfl⟩
        rw [ofLetters?, if_neg (by simpa using h), hsplit]
        refine foldlM_readPart?_iff.mpr ⟨parts, rfl, fun p hp => (hparts p hp).2, fun f => ?_⟩
        rw [hbits f, get_none, Bool.false_or]

end Status

end Nmos6502
