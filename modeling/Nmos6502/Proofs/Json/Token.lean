/-
Numbers and strings read back as tokens.

A number in decimal digits and a text that needs no escapes, as they are written, are each
one token again, whatever comes behind, as long as a number is not followed by something
that would belong to it.  Digits are read for as long as there are any and a leading zero
stands alone, so the one thing to know of the written number is that it starts with a zero
only if it is zero, `head_toDigits_ne`.
-/
import Nmos6502.Json.Token

namespace Nmos6502

namespace Json

/-- What is not blank is taken as a token, and reading goes on behind it. -/
theorem tokens?_of_readToken {c : Char} {cs rest : List Char} {t : Token}
    (hc : isSpace c = false) (h : readToken? c cs = some (t, rest)) :
    tokens? (c :: cs) = (tokens? rest).map (t :: ·) := by
  rw [tokens?, if_neg (by simp [hc])]
  split
  · rename_i hnone
    rw [h] at hnone
    exact absurd hnone (by simp)
  · rename_i t' rest' hsome
    rw [h] at hsome
    obtain ⟨rfl, rfl⟩ := Prod.mk.inj (Option.some.inj hsome)
    rfl

/-! ### Numbers -/

/-- Whether a number ends in front of these characters. -/
def EndsNumber : List Char → Prop
  | [] => True
  | c :: _ => c.isDigit = false ∧ c ≠ '.' ∧ c ≠ 'e' ∧ c ≠ 'E'

theorem decimalValue_toDigits (n : Nat) : decimalValue (Nat.toDigits 10 n) = n := by
  have hvalue := Nat.ofDigitChars_ten_toDigits (n := n)
  rw [Nat.ofDigitChars_eq_foldl] at hvalue
  exact hvalue

/-- A written number that is not zero does not start with a zero. -/
theorem head_toDigits_ne {n : Nat} (hn : 0 < n) {c : Char} {cs : List Char}
    (h : Nat.toDigits 10 n = c :: cs) : c ≠ '0' := by
  induction n using Nat.strongRecOn generalizing c cs with
  | ind n ih =>
      by_cases hlt : n < 10
      · rw [Nat.toDigits_of_lt_base hlt] at h
        obtain ⟨rfl, -⟩ := List.cons.inj h
        intro hzero
        exact absurd (Nat.digitChar_eq_zero.mp hzero) (Nat.ne_of_gt hn)
      · rw [Nat.toDigits_of_base_le (by decide) (Nat.not_lt.mp hlt)] at h
        obtain ⟨d, ds, hds⟩ :=
          List.exists_cons_of_ne_nil (Nat.toDigits_ne_nil (n := n / 10) (b := 10))
        rw [hds] at h
        obtain ⟨rfl, -⟩ := List.cons.inj h
        exact ih (n / 10) (by omega) (by omega) hds

theorem takeWhile_isDigit_append {digits rest : List Char} (h : ∀ c ∈ digits, c.isDigit = true)
    (hrest : EndsNumber rest) : (digits ++ rest).takeWhile Char.isDigit = digits := by
  rw [List.takeWhile_append_of_pos h]
  cases rest with
  | nil => simp
  | cons c cs => simp [hrest.1]

theorem dropWhile_isDigit_append {digits rest : List Char} (h : ∀ c ∈ digits, c.isDigit = true)
    (hrest : EndsNumber rest) : (digits ++ rest).dropWhile Char.isDigit = rest := by
  rw [List.dropWhile_append_of_pos h]
  cases rest with
  | nil => simp
  | cons c cs => simp [hrest.1]

/-- Digits with no needless zero in front are read up to their end. -/
theorem readInteger?_append {c : Char} {digits rest : List Char}
    (h : ∀ d ∈ c :: digits, d.isDigit = true) (hzero : c = '0' → digits = [])
    (hrest : EndsNumber rest) :
    readInteger? (c :: digits ++ rest) = some (c :: digits, rest) := by
  by_cases hc : c = '0'
  · subst hc
    simp [hzero rfl, readInteger?]
  · have hskip : skipDigits? (c :: digits ++ rest) = some rest := by
      have hdigits : ∀ d ∈ digits, d.isDigit = true := fun d hd => h d (List.mem_cons_of_mem c hd)
      simp only [List.cons_append, skipDigits?, h c List.mem_cons_self, if_true,
        dropWhile_isDigit_append hdigits hrest]
    rw [readInteger?]
    · rw [hskip, Option.map_some, takeWhile_isDigit_append h hrest]
    · intro cs hcs
      exact hc (List.cons.inj hcs).1

theorem skipFraction?_of_endsNumber {rest : List Char} (h : EndsNumber rest) :
    skipFraction? rest = some rest := by
  cases rest with
  | nil => rfl
  | cons c cs =>
      rw [skipFraction?]
      intro ds hds
      exact h.2.1 (List.cons.inj hds).1

theorem skipExponent?_of_endsNumber {rest : List Char} (h : EndsNumber rest) :
    skipExponent? rest = some rest := by
  cases rest with
  | nil => rfl
  | cons c cs =>
      obtain ⟨-, -, he, hE⟩ := h
      unfold skipExponent?
      split <;> simp_all

/-- A number in decimal digits is read up to its end, and keeps its value. -/
theorem readUnsigned?_toDigits {n : Nat} {rest : List Char} (h : EndsNumber rest) :
    readUnsigned? (Nat.toDigits 10 n ++ rest) = some (.natural n, rest) := by
  have hread : readInteger? (Nat.toDigits 10 n ++ rest) = some (Nat.toDigits 10 n, rest) := by
    obtain ⟨c, digits, hn⟩ := List.exists_cons_of_ne_nil (Nat.toDigits_ne_nil (n := n) (b := 10))
    rw [hn]
    refine readInteger?_append (fun d hd => ?_) (fun hc => ?_) h
    · exact Nat.isDigit_of_mem_toDigits (by decide) (by decide) (hn ▸ hd)
    · rcases Nat.eq_zero_or_pos n with rfl | hpos
      · exact (List.cons.inj hn).2.symm
      · exact absurd hc (head_toDigits_ne hpos hn)
  simp [readUnsigned?, hread, skipFraction?_of_endsNumber h, skipExponent?_of_endsNumber h,
    decimalValue_toDigits]

/-- A character that starts neither a mark, a word nor a string starts a number. -/
theorem readToken?_of_isDigit {c : Char} {cs : List Char} (hc : c.isDigit = true) :
    readToken? c cs = readUnsigned? (c :: cs) := by
  unfold readToken?
  split <;> first | rfl | exact absurd hc (by decide)

theorem isSpace_of_isDigit {c : Char} (hc : c.isDigit = true) : isSpace c = false := by
  by_cases h : isSpace c = true
  · simp only [isSpace, Bool.or_eq_true, decide_eq_true_eq] at h
    rcases h with ((rfl | rfl) | rfl) | rfl <;> exact absurd hc (by decide)
  · simpa using h

/-- A number in decimal digits is one token. -/
theorem tokens?_toDigits_append {n : Nat} {rest : List Char} (h : EndsNumber rest) :
    tokens? (Nat.toDigits 10 n ++ rest) = (tokens? rest).map (.natural n :: ·) := by
  obtain ⟨c, digits, hn⟩ := List.exists_cons_of_ne_nil (Nat.toDigits_ne_nil (n := n) (b := 10))
  have hmem : c ∈ Nat.toDigits 10 n := by
    rw [hn]
    exact List.mem_cons_self
  have hc : c.isDigit = true := Nat.isDigit_of_mem_toDigits (by decide) (by decide) hmem
  have hread := readUnsigned?_toDigits (n := n) h
  rw [hn, List.cons_append] at hread ⊢
  refine tokens?_of_readToken (isSpace_of_isDigit hc) ?_
  rw [readToken?_of_isDigit hc, hread]

/-! ### Strings -/

/-- Whether a character stands for itself between the quotes of a string. -/
def IsPlain (c : Char) : Prop := c ≠ '"' ∧ c ≠ '\\' ∧ 0x20 ≤ c.toNat

theorem readUnits_append {cs rest : List Char} (h : ∀ c ∈ cs, IsPlain c) :
    readUnits (cs ++ '"' :: rest) = some (cs.map Char.toNat, rest) := by
  induction cs with
  | nil => simp [readUnits]
  | cons c cs ih =>
      obtain ⟨hquote, hslash, hcontrol⟩ := h c List.mem_cons_self
      have hcs := ih fun d hd => h d (List.mem_cons_of_mem c hd)
      rw [List.cons_append, readUnits]
      · simp [hcs, Nat.not_lt.mpr hcontrol]
      all_goals simp_all

/-- No character is half of a surrogate pair, so characters are joined as they are. -/
theorem joinUnits_map_toNat (cs : List Char) : joinUnits (cs.map Char.toNat) = some cs := by
  induction cs with
  | nil => rfl
  | cons c cs ih =>
      have hvalid := c.valid
      simp only [UInt32.isValidChar, Nat.isValidChar] at hvalid
      have hhigh : ¬(0xD800 ≤ c.toNat ∧ c.toNat < 0xDC00) := by
        simp only [Char.toNat]
        omega
      have hlow : ¬(0xDC00 ≤ c.toNat ∧ c.toNat < 0xE000) := by
        simp only [Char.toNat]
        omega
      rw [List.map_cons, joinUnits.eq_def]
      simp only [if_neg hhigh, if_neg hlow, ih, Option.map_some, Char.ofNat_toNat]

/-- Plain characters between quotes are one token. -/
theorem tokens?_quoted_append {cs rest : List Char} (h : ∀ c ∈ cs, IsPlain c) :
    tokens? ('"' :: (cs ++ '"' :: rest)) =
      (tokens? rest).map (.text (some (String.ofList cs)) :: ·) := by
  refine tokens?_of_readToken rfl ?_
  simp only [readToken?, readUnits_append h, Option.map_some, joinUnits_map_toNat]

end Json

end Nmos6502
