/-
The tokens of a JSON text.

Between blanks of its own kind, a JSON text is a row of punctuation marks, words,
numbers and quoted strings.  Numbers keep their value only where they are written as
plain digits, which is the one form in which a register can be given.  A quoted string
keeps its text, unless an escape leaves half of a surrogate pair behind: such a string
is well formed but stands for no text.
-/
import Nmos6502.Text.Hex

namespace Nmos6502

namespace Json

/-- What a JSON text consists of. -/
inductive Token
  | openBrace
  | closeBrace
  | openBracket
  | closeBracket
  | colon
  | comma
  /-- One of the words `true`, `false` and `null`. -/
  | word
  /-- A number written as digits alone. -/
  | natural (n : Nat)
  /-- A number with a sign, a fraction or an exponent. -/
  | number
  /-- A quoted string, with its text if it stands for one. -/
  | text (content : Option String)
  deriving DecidableEq, Repr

/-- The blanks of a JSON text. -/
def isSpace (c : Char) : Bool := c = ' ' || c = '\t' || c = '\n' || c = '\r'

/-! ### Strings -/

/-- The code point that a one-letter escape stands for. -/
def escapeValue? : Char → Option Nat
  | '"' => some 0x22
  | '\\' => some 0x5C
  | '/' => some 0x2F
  | 'b' => some 0x08
  | 'f' => some 0x0C
  | 'n' => some 0x0A
  | 'r' => some 0x0D
  | 't' => some 0x09
  | _ => none

/-- The number that four hexadecimal digits stand for. -/
def hexUnit? (a b c d : Char) : Option Nat := do
  let a ← hexValue? a
  let b ← hexValue? b
  let c ← hexValue? c
  let d ← hexValue? d
  return 4096 * a + 256 * b + 16 * c + d

/--
The code points of a string up to its closing quote, and what is behind the quote.
Escaped surrogates are kept as they are written.  Control characters must be escaped.
-/
def readUnits : List Char → Option (List Nat × List Char)
  | [] => none
  | '"' :: rest => some ([], rest)
  | '\\' :: 'u' :: a :: b :: c :: d :: rest => do
    let unit ← hexUnit? a b c d
    let (units, rest) ← readUnits rest
    return (unit :: units, rest)
  | '\\' :: c :: rest => do
    let unit ← escapeValue? c
    let (units, rest) ← readUnits rest
    return (unit :: units, rest)
  | c :: rest =>
    if c.toNat < 0x20 then none
    else do
      let (units, rest) ← readUnits rest
      return (c.toNat :: units, rest)

/-- The text of a row of code points in which surrogates come in pairs, high before low. -/
def joinUnits : List Nat → Option (List Char)
  | [] => some []
  | unit :: units =>
    if 0xD800 ≤ unit ∧ unit < 0xDC00 then
      match units with
      | low :: units =>
        if 0xDC00 ≤ low ∧ low < 0xE000 then
          (joinUnits units).map
            (Char.ofNat (0x10000 + 0x400 * (unit - 0xD800) + (low - 0xDC00)) :: ·)
        else none
      | [] => none
    else if 0xDC00 ≤ unit ∧ unit < 0xE000 then none
    else (joinUnits units).map (Char.ofNat unit :: ·)

/-! ### Numbers -/

/-- What is behind the decimal digits at the front of a text, if there is at least one. -/
def skipDigits? : List Char → Option (List Char)
  | [] => none
  | c :: cs => if c.isDigit then some (cs.dropWhile Char.isDigit) else none

/-- Digits without a needless zero in front, and what is behind them. -/
def readInteger? : List Char → Option (List Char × List Char)
  | '0' :: rest => some (['0'], rest)
  | cs => (skipDigits? cs).map fun rest => (cs.takeWhile Char.isDigit, rest)

/-- What is behind a fraction, if one comes next. -/
def skipFraction? : List Char → Option (List Char)
  | '.' :: rest => skipDigits? rest
  | cs => some cs

/-- What is behind an exponent, if one comes next. -/
def skipExponent? : List Char → Option (List Char)
  | 'e' :: '+' :: rest | 'e' :: '-' :: rest | 'E' :: '+' :: rest | 'E' :: '-' :: rest
  | 'e' :: rest | 'E' :: rest => skipDigits? rest
  | cs => some cs

/-- The number that a row of decimal digits stands for. -/
def decimalValue (digits : List Char) : Nat :=
  digits.foldl (fun n c => 10 * n + (c.toNat - 48)) 0

/-- Reads a number without a sign. -/
def readUnsigned? (cs : List Char) : Option (Token × List Char) := do
  let (digits, rest) ← readInteger? cs
  let behind ← skipFraction? rest
  let behind ← skipExponent? behind
  return (if behind.length = rest.length then .natural (decimalValue digits) else .number, behind)

/-! ### The row of tokens -/

/-- Reads one token, the first character of which is `c`. -/
def readToken? (c : Char) (rest : List Char) : Option (Token × List Char) :=
  match c, rest with
  | '\x7b', _ => some (.openBrace, rest)
  | '\x7d', _ => some (.closeBrace, rest)
  | '[', _ => some (.openBracket, rest)
  | ']', _ => some (.closeBracket, rest)
  | ':', _ => some (.colon, rest)
  | ',', _ => some (.comma, rest)
  | 't', 'r' :: 'u' :: 'e' :: rest => some (.word, rest)
  | 'f', 'a' :: 'l' :: 's' :: 'e' :: rest => some (.word, rest)
  | 'n', 'u' :: 'l' :: 'l' :: rest => some (.word, rest)
  | '"', _ => (readUnits rest).map fun (units, rest) =>
      (.text ((joinUnits units).map String.ofList), rest)
  | '-', _ => (readUnsigned? rest).map fun (_, rest) => (.number, rest)
  | _, _ => readUnsigned? (c :: rest)

/-! ### Every token is shorter than the text it was read from -/

theorem length_readUnits_lt {cs : List Char} :
    ∀ {units rest}, readUnits cs = some (units, rest) → rest.length < cs.length := by
  fun_induction readUnits cs with
  | case1 => simp
  | case2 rest =>
      intro units r h
      simp only [Option.some.injEq, Prod.mk.injEq] at h
      simp [← h.2]
  | case3 a b c d rest ih =>
      intro units r h
      simp only [Option.bind_eq_bind, Option.bind_eq_some_iff] at h
      obtain ⟨_, _, ⟨u, r'⟩, hr, h⟩ := h
      obtain ⟨-, rfl⟩ := Prod.mk.inj (Option.some.inj h)
      have := ih hr
      simp only [List.length_cons]
      omega
  | case4 c rest _ ih =>
      intro units r h
      simp only [Option.bind_eq_bind, Option.bind_eq_some_iff] at h
      obtain ⟨_, _, ⟨u, r'⟩, hr, h⟩ := h
      obtain ⟨-, rfl⟩ := Prod.mk.inj (Option.some.inj h)
      have := ih hr
      simp only [List.length_cons]
      omega
  | case5 => simp
  | case6 c rest _ _ _ _ ih =>
      intro units r h
      simp only [Option.bind_eq_bind, Option.bind_eq_some_iff] at h
      obtain ⟨⟨u, r'⟩, hr, h⟩ := h
      obtain ⟨-, rfl⟩ := Prod.mk.inj (Option.some.inj h)
      have := ih hr
      simp only [List.length_cons]
      omega

theorem length_skipDigits_lt {cs rest : List Char} (h : skipDigits? cs = some rest) :
    rest.length < cs.length := by
  unfold skipDigits? at h
  split at h
  · exact absurd h (by simp)
  · split at h
    · obtain rfl := Option.some.inj h
      exact Nat.lt_succ_of_le (List.dropWhile_sublist _).length_le
    · exact absurd h (by simp)

theorem length_readInteger_lt {cs digits rest : List Char}
    (h : readInteger? cs = some (digits, rest)) : rest.length < cs.length := by
  unfold readInteger? at h
  split at h
  · obtain ⟨-, rfl⟩ := Prod.mk.inj (Option.some.inj h)
    simp
  · obtain ⟨r, hr, heq⟩ := Option.map_eq_some_iff.mp h
    obtain ⟨-, rfl⟩ := Prod.mk.inj heq
    exact length_skipDigits_lt hr

theorem length_skipFraction_le {cs rest : List Char} (h : skipFraction? cs = some rest) :
    rest.length ≤ cs.length := by
  unfold skipFraction? at h
  split at h
  · have := length_skipDigits_lt h
    simp only [List.length_cons]
    omega
  · simp only [Option.some.injEq] at h
    simp [h]

theorem length_skipExponent_le {cs rest : List Char} (h : skipExponent? cs = some rest) :
    rest.length ≤ cs.length := by
  unfold skipExponent? at h
  split at h
  case h_7 =>
    simp only [Option.some.injEq] at h
    simp [h]
  all_goals
    have := length_skipDigits_lt h
    simp only [List.length_cons]
    omega

theorem length_readUnsigned_lt {cs : List Char} {t : Token} {rest : List Char}
    (h : readUnsigned? cs = some (t, rest)) : rest.length < cs.length := by
  simp only [readUnsigned?, Option.bind_eq_bind, Option.bind_eq_some_iff] at h
  obtain ⟨⟨digits, r⟩, hi, f, hf, e, he, h⟩ := h
  obtain ⟨-, rfl⟩ := Prod.mk.inj (Option.some.inj h)
  exact Nat.lt_of_le_of_lt (length_skipExponent_le he)
    (Nat.lt_of_le_of_lt (length_skipFraction_le hf) (length_readInteger_lt hi))

theorem length_readToken_le {c : Char} {cs : List Char} {t : Token} {rest : List Char}
    (h : readToken? c cs = some (t, rest)) : rest.length ≤ cs.length := by
  unfold readToken? at h
  split at h
  case h_10 =>
    obtain ⟨⟨u, r⟩, hr, heq⟩ := Option.map_eq_some_iff.mp h
    obtain ⟨-, rfl⟩ := Prod.mk.inj heq
    exact Nat.le_of_lt (length_readUnits_lt hr)
  case h_11 =>
    obtain ⟨⟨u, r⟩, hr, heq⟩ := Option.map_eq_some_iff.mp h
    obtain ⟨-, rfl⟩ := Prod.mk.inj heq
    exact Nat.le_of_lt (length_readUnsigned_lt hr)
  case h_12 =>
    have := length_readUnsigned_lt h
    simp only [List.length_cons] at this
    omega
  case h_7 | h_8 | h_9 =>
    obtain ⟨-, rfl⟩ := Prod.mk.inj (Option.some.inj h)
    simp only [List.length_cons]
    omega
  all_goals
    obtain ⟨-, rfl⟩ := Prod.mk.inj (Option.some.inj h)
    exact Nat.le_refl _

/-- The tokens of a text, if all of it is tokens and blanks. -/
def tokens? : List Char → Option (List Token)
  | [] => some []
  | c :: cs =>
    if isSpace c then tokens? cs
    else
      match _h : readToken? c cs with
      | none => none
      | some (t, rest) => (tokens? rest).map (t :: ·)
termination_by cs => cs.length
decreasing_by
  · simp
  · have := length_readToken_le _h
    simp only [List.length_cons]
    omega

end Json

end Nmos6502
