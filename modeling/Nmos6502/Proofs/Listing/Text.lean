/-
The text of a line determines its bytes.

A line is read back by position.  The address has four digits and the mnemonic three
letters, and the mode's tag in its parentheses is the last thing on the line, so what
is left between them is the operand; once the mode is known, so is the place of every
digit of the operand.  Mnemonic and tag together name one opcode, `lookup_injective`,
and a data line has a dot where an instruction has a letter.

In the other direction the text adds nothing to the bytes: of the resolved operand it
shows only a branch's target, which the distance in the code determines.
-/
import Mathlib.Data.List.Basic
import Nmos6502.Listing
import Nmos6502.Proofs.Fetch

namespace Nmos6502

/-! ### Fixed widths -/

theorem toList_hexByte (b : Byte) : (hexByte b).toList = hexByteDigits b :=
  String.toList_ofList

theorem toList_hexAddress (a : Address) :
    (hexAddress a).toList = hexByteDigits (highByte a) ++ hexByteDigits (lowByte a) :=
  String.toList_ofList

theorem hexAddress_inj {a b : Address} (h : (hexAddress a).toList = (hexAddress b).toList) :
    a = b := by
  rw [toList_hexAddress, toList_hexAddress] at h
  obtain ⟨hhigh, hlow⟩ := List.append_inj h rfl
  rw [← wordOf_halves a, hexByteDigits_inj hhigh, hexByteDigits_inj hlow, wordOf_halves]

theorem Instruction.length_mnemonic (i : Instruction) : i.mnemonic.toList.length = 3 := by
  cases i <;> rfl

/-- No mnemonic starts like a data line. -/
theorem Instruction.head_mnemonic (i : Instruction) : i.mnemonic.toList.head? ≠ some '.' := by
  cases i <;> decide

theorem AddressingMode.length_tag (mode : AddressingMode) : mode.tag.toList.length = 3 := by
  cases mode <;> rfl

/-! ### Mnemonic and tag name one opcode -/

/-- The place in the table of the opcode for an instruction in a mode. -/
def Opcode.place? (i : Instruction) (mode : AddressingMode) : Option Nat :=
  Opcode.table.toList.findIdx? fun o => o.any fun e => e.instruction == i && e.mode == mode

theorem Opcode.place?_of_lookup {b : Byte} {entry : Opcode}
    (h : Opcode.lookup b = some entry) :
    Opcode.place? entry.instruction entry.mode = some b.toNat := by
  have hall : ∀ p ∈ Opcode.table.toList.zipIdx,
      p.1.all (fun e => Opcode.place? e.instruction e.mode == some p.2) = true := by
    decide +kernel
  have hplace := Opcode.getElem?_table_of_lookup h
  exact eq_of_beq (hall _ (List.mk_mem_zipIdx_iff_getElem?.mpr hplace))

theorem Opcode.lookup_injective {b c : Byte} {e f : Opcode} (hb : Opcode.lookup b = some e)
    (hc : Opcode.lookup c = some f) (hinstr : e.instruction = f.instruction)
    (hmode : e.mode = f.mode) : b = c := by
  have hplace := Opcode.place?_of_lookup hb
  rw [hinstr, hmode, Opcode.place?_of_lookup hc] at hplace
  exact UInt8.toNat_inj.mp (Option.some.inj hplace).symm

/-! ### The operand is read back by its mode -/

theorem hexByteDigits_append_inj {b c : Byte} {q r : List Char}
    (h : hexByteDigits b ++ q = hexByteDigits c ++ r) : b = c :=
  hexByteDigits_inj (List.append_inj h rfl).1

theorem hexAddress_append_inj {a b : Address} {q r : List Char}
    (h : (hexAddress a).toList ++ q = (hexAddress b).toList ++ r) : a = b :=
  have hlength : ∀ c : Address, (hexAddress c).toList.length = 4 := fun c => by
    rw [toList_hexAddress]
    rfl
  hexAddress_inj (List.append_inj h ((hlength a).trans (hlength b).symm)).1

namespace Decoded

theorem operandBytes_of_firstByte {d e : Decoded} (hd : d.operandBytes.length = 1)
    (he : e.operandBytes.length = 1) (h : d.firstByte = e.firstByte) :
    d.operandBytes = e.operandBytes := by
  obtain ⟨b, hb⟩ := List.length_eq_one_iff.mp hd
  obtain ⟨c, hc⟩ := List.length_eq_one_iff.mp he
  rw [firstByte, firstByte, hb, hc] at h
  rw [hb, hc]
  exact congrArg (fun v => [v]) h

theorem operandBytes_of_operandWord {d e : Decoded} (hd : d.operandBytes.length = 2)
    (he : e.operandBytes.length = 2) (h : d.operandWord = e.operandWord) :
    d.operandBytes = e.operandBytes := by
  obtain ⟨low, high, hb⟩ := List.length_eq_two.mp hd
  obtain ⟨low', high', hc⟩ := List.length_eq_two.mp he
  rw [operandWord, operandWord, hb, hc] at h
  replace h : wordOf low high = wordOf low' high' := h
  have hlow : low = low' := by rw [← lowByte_wordOf low high, h, lowByte_wordOf]
  have hhigh : high = high' := by rw [← highByte_wordOf low high, h, highByte_wordOf]
  rw [hb, hc, hlow, hhigh]

/-- What stands between the mnemonic and the tag gives the operand text back. -/
theorem spaced_injective {s t : String}
    (h : (if s.isEmpty then "" else " " ++ s) = (if t.isEmpty then "" else " " ++ t)) : s = t := by
  have hne : ∀ r : String, "" ≠ " " ++ r := by
    intro r hr
    exact absurd (congrArg String.toList hr) (by simp)
  by_cases hs : s.isEmpty = true
  · by_cases ht : t.isEmpty = true
    · rw [String.isEmpty_iff.mp hs, String.isEmpty_iff.mp ht]
    · rw [if_pos hs, if_neg ht] at h
      exact absurd h (hne t)
  · by_cases ht : t.isEmpty = true
    · rw [if_neg hs, if_pos ht] at h
      exact absurd h.symm (hne s)
    · rw [if_neg hs, if_neg ht] at h
      have hletters := congrArg String.toList h
      rw [String.toList_append, String.toList_append] at hletters
      exact String.toList_inj.mp (List.append_cancel_left hletters)

/-- **The operand text and the mode give the operand bytes back.** -/
theorem operandBytes_of_operandText {d e : Decoded} (hmode : d.mode = e.mode)
    (hd : d.operandBytes.length = d.mode.operandLength)
    (he : e.operandBytes.length = e.mode.operandLength)
    (h : d.operandText = e.operandText) : d.operandBytes = e.operandBytes := by
  have hletters := congrArg String.toList h
  rw [← hmode] at he
  unfold operandText at hletters
  rw [← hmode] at hletters
  cases hm : d.mode with
  | implied | accumulator =>
      rw [hm] at hd he
      rw [List.length_eq_zero_iff.mp hd, List.length_eq_zero_iff.mp he]
  | immediate | zeroPage | zeroPageX | zeroPageY | relative | indirectX | indirectY =>
      rw [hm] at hd he
      simp only [hm, String.toList_append, List.append_assoc, List.append_cancel_left_eq,
        toList_hexByte] at hletters
      refine operandBytes_of_firstByte hd he ?_
      exact hexByteDigits_append_inj hletters
  | absolute =>
      rw [hm] at hd he
      simp only [hm, String.toList_append, List.append_cancel_left_eq] at hletters
      exact operandBytes_of_operandWord hd he (hexAddress_inj hletters)
  | absoluteX | absoluteY | indirect =>
      rw [hm] at hd he
      simp only [hm, String.toList_append, List.append_assoc, List.append_cancel_left_eq]
        at hletters
      refine operandBytes_of_operandWord hd he ?_
      exact hexAddress_append_inj hletters

/-! ### A line is read back by position -/

/-- The parts of a line, in the order of the page. -/
theorem toList_text (d : Decoded) :
    d.text.toList =
      "$".toList ++ ((hexAddress d.address).toList ++ (": ".toList ++
        (d.instruction.mnemonic.toList ++
          ((if d.operandText.isEmpty then "" else " " ++ d.operandText).toList ++
            (" (".toList ++ (d.mode.tag.toList ++ ")".toList)))))) := by
  simp only [text, String.toList_append, List.append_assoc]

/-- **The text of an instruction at a known address names everything that it shows.** -/
theorem eq_of_text {d e : Decoded} (haddress : d.address = e.address) (h : d.text = e.text) :
    d.instruction = e.instruction ∧ d.mode = e.mode ∧ d.operandText = e.operandText := by
  have hletters := congrArg String.toList h
  rw [toList_text, toList_text, haddress] at hletters
  replace hletters := List.append_cancel_left (List.append_cancel_left
    (List.append_cancel_left hletters))
  obtain ⟨hmnemonic, hrest⟩ := List.append_inj hletters
    (by rw [Instruction.length_mnemonic, Instruction.length_mnemonic])
  -- What comes behind the operand is as long on either line, whatever the modes are.
  obtain ⟨hoperand, htag⟩ := List.append_inj' hrest
    (by simp only [List.length_append, AddressingMode.length_tag])
  refine ⟨?_, ?_, ?_⟩
  · exact Instruction.mnemonic_injective (String.toList_inj.mp hmnemonic)
  · have := List.append_cancel_right (List.append_cancel_left htag)
    exact AddressingMode.tag_injective (String.toList_inj.mp this)
  · exact spaced_injective (String.toList_inj.mp hoperand)

/-- An instruction's line is no data line. -/
theorem text_ne_undefinedText (d : Decoded) (b : Byte) :
    d.text ≠ undefinedText d.address b := by
  intro h
  have hlabel : ": .byte $" = ": " ++ ".byte $" := by decide
  have hletters := congrArg String.toList h
  rw [toList_text, undefinedText, hlabel] at hletters
  simp only [String.toList_append, List.append_assoc, List.append_cancel_left_eq] at hletters
  have hdot : ".byte $".toList = '.' :: "byte $".toList := by decide
  cases hm : d.instruction.mnemonic.toList with
  | nil =>
      have hlength := d.instruction.length_mnemonic
      rw [hm] at hlength
      exact absurd hlength (by decide)
  | cons c cs =>
      rw [hm, hdot, List.cons_append, List.cons_append, List.cons.injEq] at hletters
      apply d.instruction.head_mnemonic
      rw [hm, hletters.1, List.head?_cons]

end Decoded

/-- A data line shows its byte. -/
theorem undefinedText_injective {a : Address} {b c : Byte}
    (h : undefinedText a b = undefinedText a c) : b = c := by
  have hletters := congrArg String.toList h
  simp only [undefinedText, String.toList_append, List.append_assoc, List.append_cancel_left_eq,
    toList_hexByte] at hletters
  exact hexByteDigits_inj hletters

/-! ### The lines of a sweep -/

/-- The bytes that a line covers, in the order of memory. -/
def Line.bytes : Line → List Byte
  | .code d => d.opcode :: d.operandBytes
  | .data _ b => [b]

theorem Line.length_bytes (line : Line) : line.bytes.length = line.size := by
  cases line with
  | code d => exact Nat.add_comm _ _
  | data a b => rfl

section

variable {σ τ : Type} [Bus σ] [Bus τ]

/-- A stretch of memory is its first bytes and then the others. -/
theorem Bus.readBytes_add (bus : σ) (a : Address) (m n : Nat) :
    Bus.readBytes bus a (m + n) =
      Bus.readBytes bus a m ++ Bus.readBytes bus (a + UInt16.ofNat m) n := by
  rw [Bus.readBytes, List.range_add, List.map_append, List.map_map]
  refine congrArg (Bus.readBytes bus a m ++ ·) (List.map_congr_left fun i _ => ?_)
  show Bus.read bus (a + UInt16.ofNat (m + i)) = _
  rw [UInt16.ofNat_add, ← UInt16.add_assoc]

theorem Bus.readBytes_succ (bus : σ) (a : Address) (n : Nat) :
    Bus.readBytes bus a (1 + n) = Bus.read bus a :: Bus.readBytes bus (a + 1) n := by
  rw [Bus.readBytes_add]
  show Bus.read bus (a + 0) :: _ = _
  rw [UInt16.add_zero]
  rfl

theorem Bus.readBytes_eq_iff (bus : σ) (bus' : τ) (a : Address) (n : Nat) :
    Bus.readBytes bus a n = Bus.readBytes bus' a n ↔
      ∀ i < n, Bus.read bus (a + UInt16.ofNat i) = Bus.read bus' (a + UInt16.ofNat i) := by
  unfold Bus.readBytes
  rw [List.map_inj_left]
  constructor
  · intro h i hi
    exact h i (List.mem_range.mpr hi)
  · intro h i hi
    exact h i (List.mem_range.mp hi)

theorem lineAt_of_decode {bus : σ} {a : Address} {x y : Byte} {d : Decoded}
    (h : decode bus a x y = some d) : lineAt bus a x y = .code d := by
  rw [lineAt, h]

theorem lineAt_of_decode_none {bus : σ} {a : Address} {x y : Byte}
    (h : decode bus a x y = none) : lineAt bus a x y = .data a (Bus.read bus a) := by
  rw [lineAt, h]

@[simp] theorem address_lineAt (bus : σ) (a : Address) (x y : Byte) :
    (lineAt bus a x y).address = a := by
  cases hd : decode bus a x y with
  | none => rw [lineAt_of_decode_none hd, Line.address]
  | some d => rw [lineAt_of_decode hd, Line.address, address_of_decode hd]

/-- How far a line reaches hangs on the opcode alone. -/
theorem size_lineAt (bus : σ) (a : Address) (x y : Byte) :
    (lineAt bus a x y).size = ((Opcode.lookup (Bus.read bus a)).map Opcode.size).getD 1 := by
  cases hd : decode bus a x y with
  | none =>
      rw [lineAt_of_decode_none hd, decode_eq_none_iff.mp hd]
      rfl
  | some d =>
      obtain ⟨entry, hentry, hfields⟩ := exists_entry_of_decode hd
      rw [lineAt_of_decode hd, hentry, Line.size, size_of_decode hd, hfields]
      rfl

/-- A line covers the bytes from its address on. -/
theorem bytes_lineAt (bus : σ) (a : Address) (x y : Byte) :
    (lineAt bus a x y).bytes = Bus.readBytes bus a (lineAt bus a x y).size := by
  cases hd : decode bus a x y with
  | none =>
      rw [lineAt_of_decode_none hd]
      exact (Bus.readBytes_succ bus a 0).symm
  | some d =>
      rw [lineAt_of_decode hd, Line.size, size_of_decode hd, Bus.readBytes_succ, Line.bytes,
        opcode_of_decode hd, operandBytes_of_decode hd]

/-- A branch's target is determined by where the branch is and by its distance. -/
theorem branchTarget_of_decode {bus : σ} {bus' : τ} {a : Address} {x y x' y' : Byte}
    {d e : Decoded} (hd : decode bus a x y = some d) (he : decode bus' a x' y' = some e)
    (hrel : d.mode = .relative) (hmode : d.mode = e.mode)
    (hbytes : d.operandBytes = e.operandBytes) : d.branchTarget = e.branchTarget := by
  have hsize : d.size = e.size := by rw [Decoded.size, Decoded.size, hbytes]
  have hread : Bus.read bus (a + 1) = Bus.read bus' (a + 1) := by
    rw [operandBytes_of_decode hd, operandBytes_of_decode he, ← hmode, hrel] at hbytes
    have hone : AddressingMode.relative.operandLength = 1 + 0 := rfl
    rw [hone, Bus.readBytes_succ, Bus.readBytes_succ] at hbytes
    exact (List.cons.inj hbytes).1
  rw [Decoded.branchTarget, Decoded.branchTarget, operand_of_relative hd hrel,
    operand_of_relative he (hmode ▸ hrel), address_of_decode hd, address_of_decode he, hsize,
    hread]

/-- **The operand text shows nothing that is not in the code.** -/
theorem operandText_of_decode {bus : σ} {bus' : τ} {a : Address} {x y x' y' : Byte}
    {d e : Decoded} (hd : decode bus a x y = some d) (he : decode bus' a x' y' = some e)
    (hmode : d.mode = e.mode) (hbytes : d.operandBytes = e.operandBytes) :
    d.operandText = e.operandText := by
  have hfirst : d.firstByte = e.firstByte := by rw [Decoded.firstByte, Decoded.firstByte, hbytes]
  have hword : d.operandWord = e.operandWord := by
    rw [Decoded.operandWord, Decoded.operandWord, hfirst, hbytes]
  unfold Decoded.operandText
  rw [← hmode, hfirst, hword, address_of_decode hd, address_of_decode he]
  cases hm : d.mode with
  | relative => rw [branchTarget_of_decode hd he hm hmode hbytes]
  | _ => rfl

theorem head_bytes_lineAt (bus : σ) (a : Address) (x y : Byte) :
    (lineAt bus a x y).bytes.head? = some (Bus.read bus a) := by
  cases hd : decode bus a x y with
  | none =>
      rw [lineAt_of_decode_none hd]
      rfl
  | some d =>
      rw [lineAt_of_decode hd, ← opcode_of_decode hd]
      rfl

/-- **The same bytes make the same text.** -/
theorem text_of_bytes {bus : σ} {bus' : τ} {a : Address} {x y x' y' : Byte}
    (h : (lineAt bus a x y).bytes = (lineAt bus' a x' y').bytes) :
    (lineAt bus a x y).text = (lineAt bus' a x' y').text := by
  have hread : Bus.read bus a = Bus.read bus' a := by
    have hhead := head_bytes_lineAt bus a x y
    rw [h, head_bytes_lineAt] at hhead
    exact (Option.some.inj hhead).symm
  cases hd : decode bus a x y with
  | none =>
      have he : decode bus' a x' y' = none := by
        rw [decode_eq_none_iff, ← hread]
        exact decode_eq_none_iff.mp hd
      rw [lineAt_of_decode_none hd, lineAt_of_decode_none he, hread]
  | some d =>
      obtain ⟨entry, hentry, hfields⟩ := exists_entry_of_decode hd
      obtain ⟨e, he, hinstr, hmode⟩ := exists_decode_of_lookup x' y' (hread ▸ hentry)
      rw [lineAt_of_decode hd, lineAt_of_decode he] at h ⊢
      have hdmode : d.mode = e.mode := by rw [hfields, hmode]
      have hdinstr : d.instruction = e.instruction := by rw [hfields, hinstr]
      have hoperand := operandText_of_decode hd he hdmode (List.cons.inj h).2
      rw [Line.text, Line.text, Decoded.text, Decoded.text, hoperand, hdmode, hdinstr,
        address_of_decode hd, address_of_decode he]

/-- **The same text covers the same bytes.** -/
theorem bytes_of_text {bus : σ} {bus' : τ} {a : Address} {x y x' y' : Byte}
    (h : (lineAt bus a x y).text = (lineAt bus' a x' y').text) :
    (lineAt bus a x y).bytes = (lineAt bus' a x' y').bytes := by
  cases hd : decode bus a x y with
  | none =>
      rw [lineAt_of_decode_none hd] at h ⊢
      cases he : decode bus' a x' y' with
      | none =>
          rw [lineAt_of_decode_none he] at h ⊢
          rw [Line.bytes, undefinedText_injective h, Line.bytes]
      | some e =>
          rw [lineAt_of_decode he] at h
          have hne := e.text_ne_undefinedText (Bus.read bus a)
          rw [address_of_decode he] at hne
          exact absurd h.symm hne
  | some d =>
      rw [lineAt_of_decode hd] at h ⊢
      cases he : decode bus' a x' y' with
      | none =>
          rw [lineAt_of_decode_none he] at h
          have hne := d.text_ne_undefinedText (Bus.read bus' a)
          rw [address_of_decode hd] at hne
          exact absurd h hne
      | some e =>
          rw [lineAt_of_decode he] at h ⊢
          obtain ⟨hinstr, hmode, hoperand⟩ := Decoded.eq_of_text
            (by rw [address_of_decode hd, address_of_decode he]) h
          have hbytes := Decoded.operandBytes_of_operandText hmode
            (by rw [operandBytes_of_decode hd, Bus.length_readBytes])
            (by rw [operandBytes_of_decode he, Bus.length_readBytes]) hoperand
          obtain ⟨entry, hentry, hd'⟩ := exists_entry_of_decode hd
          obtain ⟨entry', hentry', he'⟩ := exists_entry_of_decode he
          rw [hd', he'] at hinstr hmode
          have hread := Opcode.lookup_injective hentry hentry' hinstr hmode
          rw [Line.bytes, Line.bytes, hbytes, opcode_of_decode hd, opcode_of_decode he, hread]

end

end Nmos6502
