/-
What a written program loads, and why a text is none.

The reader goes through a text once and stops at the first character that is neither
blank nor a digit, so such a character is reported whatever stands behind it; only a text
without one has its digits counted.  `readDigits_append` is the pass over the characters
that do not stop it, and the outcomes follow: `decode_of_fault`, `decode_of_odd` and
`decode_of_even`.

Digits are told here by their place among the upper-case ones, as a table would.  A text
is a program exactly when its digits, taken without the blanks and in upper case, are
those of some bytes, two to each, `decode_eq_ok_iff`.  Hence neither blanks nor case
matter, and bytes that are written come back.
-/
import Nmos6502.HexProgram

namespace Nmos6502

/-! ### A digit is worth its place among the digits -/

/-- The digits in the order of their values. -/
def hexDigits : List Char :=
  ['0', '1', '2', '3', '4', '5', '6', '7', '8', '9', 'A', 'B', 'C', 'D', 'E', 'F']

/-- Whether a character is a hexadecimal digit, of either case. -/
def isHexDigit (c : Char) : Bool := hexDigits.contains c.toUpper

/-- The value of a digit. -/
def digitValue (c : Char) : Nat := hexDigits.idxOf c.toUpper

theorem digitValue_lt {c : Char} (h : isHexDigit c = true) : digitValue c < 16 :=
  List.idxOf_lt_length_of_mem (List.contains_iff_mem.mp h)

/-- Only ASCII letters have an upper case. -/
theorem toUpper_of_le {c : Char} (h : 128 ≤ c.toNat) : c.toUpper = c := by
  unfold Char.toUpper
  rw [dif_neg]
  rintro ⟨-, hle⟩
  have hle : c.toNat ≤ 122 := UInt32.le_iff_toNat_le.mp hle
  omega

theorem hexValue?_eq (c : Char) :
    hexValue? c = if isHexDigit c then some (digitValue c) else none := by
  have hascii : ∀ n < 128, hexValue? (Char.ofNat n) =
      if isHexDigit (Char.ofNat n) then some (digitValue (Char.ofNat n)) else none := by
    decide +kernel
  rcases Nat.lt_or_ge c.toNat 128 with hlt | hge
  · rw [← Char.ofNat_toNat c]
    exact hascii c.toNat hlt
  · have hno : isHexDigit c = false := by
      rw [isHexDigit, toUpper_of_le hge, List.contains_eq_mem, decide_eq_false_iff_not]
      intro hmem
      have hbelow : ∀ d ∈ hexDigits, d.toNat < 128 := by simp [hexDigits]
      exact absurd (hbelow c hmem) (Nat.not_lt.mpr hge)
    rw [hno, hexValue?]
    simp only [Bool.false_eq_true, if_false]
    rw [if_neg (by omega), if_neg (by omega), if_neg (by omega)]

/-- The digit that a value is written with has that value, and is in upper case. -/
theorem digitValue_hexDigit {n : Nat} (h : n < 16) :
    (hexDigit n).toUpper = hexDigit n ∧ isHexDigit (hexDigit n) = true ∧
      digitValue (hexDigit n) = n := by
  have hall : ∀ n < 16, (hexDigit n).toUpper = hexDigit n ∧ isHexDigit (hexDigit n) = true ∧
      digitValue (hexDigit n) = n := by
    decide +kernel
  exact hall n h

/-- In upper case, a digit is the one that its value is written with. -/
theorem hexDigit_digitValue {c : Char} (h : isHexDigit c = true) :
    hexDigit (digitValue c) = c.toUpper := by
  have hall : (hexDigits.all fun d => hexDigit (hexDigits.idxOf d) == d) = true := by decide
  exact eq_of_beq (List.all_eq_true.mp hall _ (List.contains_iff_mem.mp h))

theorem isHexDigit_of_toUpper_eq {c : Char} {n : Nat} (hn : n < 16)
    (h : c.toUpper = hexDigit n) : isHexDigit c = true ∧ digitValue c = n := by
  obtain ⟨hupper, hdigit, hvalue⟩ := digitValue_hexDigit hn
  rw [isHexDigit, hupper] at hdigit
  rw [digitValue, hupper] at hvalue
  rw [isHexDigit, digitValue, h]
  exact ⟨hdigit, hvalue⟩

namespace HexProgram

/-! ### The characters of a text -/

/-- The characters of a text that are not blank, in order. -/
def inked (cs : List Char) : List Char := cs.filter fun c => !isBlank c

/-- Whether a character is neither blank nor a digit. -/
def isFault (c : Char) : Bool := !isBlank c && !isHexDigit c

theorem inked_cons_of_blank {c : Char} (h : isBlank c = true) (cs : List Char) :
    inked (c :: cs) = inked cs :=
  List.filter_cons_of_neg (by simp [h])

theorem inked_cons_of_ink {c : Char} (h : isBlank c = false) (cs : List Char) :
    inked (c :: cs) = c :: inked cs :=
  List.filter_cons_of_pos (by simp [h])

theorem isHexDigit_of_mem_inked {cs : List Char} (h : ∀ c ∈ cs, isFault c = false) :
    ∀ c ∈ inked cs, isHexDigit c = true := by
  intro c hc
  obtain ⟨hmem, hink⟩ := List.mem_filter.mp hc
  have hclean := h c hmem
  rw [isFault, hink, Bool.true_and, Bool.not_eq_false'] at hclean
  exact hclean

/-- A fault is seen in the characters that are not blank. -/
theorem isFault_eq_false_of_inked {cs : List Char} (h : ∀ c ∈ inked cs, isHexDigit c = true) :
    ∀ c ∈ cs, isFault c = false := by
  intro c hc
  cases hblank : isBlank c with
  | true => rw [isFault, hblank, Bool.not_true, Bool.false_and]
  | false =>
      have hdigit := h c (List.mem_filter.mpr ⟨hc, by rw [hblank]; rfl⟩)
      rw [isFault, hdigit, Bool.not_true, Bool.and_false]

/-- Whether a text has a fault can be computed. -/
theorem isFault_eq_false_of_all {cs : List Char} (h : cs.all (fun c => !isFault c) = true) :
    ∀ c ∈ cs, isFault c = false := by
  intro c hc
  simpa using List.all_eq_true.mp h c hc

/-! ### The pass over a text -/

theorem readDigits_of_blank {c : Char} (h : isBlank c = true) (cs : List Char) (position : Nat)
    (read : List Nat) : readDigits (c :: cs) position read = readDigits cs (position + 1) read := by
  rw [readDigits, if_pos h]

theorem readDigits_of_digit {c : Char} (hink : isBlank c = false) (h : isHexDigit c = true)
    (cs : List Char) (position : Nat) (read : List Nat) :
    readDigits (c :: cs) position read =
      readDigits cs (position + 1) (digitValue c :: read) := by
  rw [readDigits, hink, hexValue?_eq, h]
  rfl

theorem readDigits_of_fault {c : Char} (h : isFault c = true) (cs : List Char) (position : Nat)
    (read : List Nat) :
    readDigits (c :: cs) position read = .error (.invalidDigit position c) := by
  obtain ⟨hink, hno⟩ := Bool.and_eq_true_iff.mp h
  rw [Bool.not_eq_true'] at hink hno
  rw [readDigits, hink, hexValue?_eq, hno]
  rfl

/-- **Blanks and digits are passed over**, and the digits are taken along. -/
theorem readDigits_append {front : List Char} (h : ∀ c ∈ front, isFault c = false)
    (back : List Char) : ∀ (position : Nat) (read : List Nat),
      readDigits (front ++ back) position read =
        readDigits back (position + front.length)
          (((inked front).map digitValue).reverse ++ read) := by
  induction front with
  | nil => intro position read; rfl
  | cons c cs ih =>
      intro position read
      have htail := ih fun d hd => h d (List.mem_cons_of_mem _ hd)
      have hclean := h c List.mem_cons_self
      have hplace : position + 1 + cs.length = position + (c :: cs).length := by
        rw [List.length_cons]
        omega
      rw [List.cons_append]
      cases hblank : isBlank c with
      | true => rw [readDigits_of_blank hblank, htail, inked_cons_of_blank hblank, hplace]
      | false =>
          have hdigit : isHexDigit c = true := by simpa [isFault, hblank] using hclean
          rw [readDigits_of_digit hblank hdigit, htail, inked_cons_of_ink hblank, hplace,
            List.map_cons, List.reverse_cons, List.append_assoc]
          rfl

/-! ### Two digits to a byte -/

/-- The bytes that a row of digits makes: the `i`th of the digits at `2i` and `2i + 1`. -/
def bytesOf (digits : List Char) : List Byte :=
  (List.range (digits.length / 2)).map fun i =>
    UInt8.ofNat (16 * digitValue (digits.getD (2 * i) '0') +
      digitValue (digits.getD (2 * i + 1) '0'))

theorem bytesOf_cons_cons (high low : Char) (digits : List Char) :
    bytesOf (high :: low :: digits) =
      UInt8.ofNat (16 * digitValue high + digitValue low) :: bytesOf digits := by
  have hhalf : (high :: low :: digits).length / 2 = digits.length / 2 + 1 := by
    rw [List.length_cons, List.length_cons]
    omega
  rw [bytesOf, hhalf, List.range_succ_eq_map, List.map_cons, List.map_map]
  rfl

theorem joinDigits_eq : ∀ (digits : List Char) (made : List Byte),
    joinDigits (digits.map digitValue) made = made.reverse ++ bytesOf digits
  | [], made => (List.append_nil _).symm
  | [_], made => by simp [joinDigits, bytesOf]
  | high :: low :: digits, made => by
      rw [List.map_cons, List.map_cons, joinDigits, joinDigits_eq digits, bytesOf_cons_cons,
        List.reverse_cons, List.append_assoc]
      rfl

/-- Bytes are made of the digits that they are written with, in either case. -/
theorem bytesOf_of_map_toUpper_eq : ∀ {bytes : List Byte} {digits : List Char},
    digits.map Char.toUpper = bytes.flatMap hexByteDigits →
      digits.length = 2 * bytes.length ∧ (∀ c ∈ digits, isHexDigit c = true) ∧
        bytesOf digits = bytes
  | [], digits, h => by
      obtain rfl := List.map_eq_nil_iff.mp h
      exact ⟨rfl, fun c hc => absurd hc List.not_mem_nil, rfl⟩
  | b :: bytes, digits, h => by
      have hb := b.toNat_lt
      obtain ⟨high, rest, rfl, hhigh, hrest⟩ := List.map_eq_cons_iff.mp h
      obtain ⟨low, digits, rfl, hlow, hdigits⟩ := List.map_eq_cons_iff.mp hrest
      obtain ⟨hlength, hall, hbytes⟩ := bytesOf_of_map_toUpper_eq hdigits
      obtain ⟨hhigh, hhighValue⟩ := isHexDigit_of_toUpper_eq (by omega) hhigh
      obtain ⟨hlow, hlowValue⟩ := isHexDigit_of_toUpper_eq (by omega) hlow
      refine ⟨?_, ?_, ?_⟩
      · rw [List.length_cons, List.length_cons, List.length_cons]
        omega
      · simp only [List.forall_mem_cons]
        exact ⟨hhigh, hlow, hall⟩
      · rw [bytesOf_cons_cons, hhighValue, hlowValue, hbytes, Nat.div_add_mod, UInt8.ofNat_toNat]

/-- Digits in pairs are what the bytes they make are written with. -/
theorem map_toUpper_eq_of_even : ∀ {digits : List Char}, digits.length % 2 = 0 →
    (∀ c ∈ digits, isHexDigit c = true) →
      digits.map Char.toUpper = (bytesOf digits).flatMap hexByteDigits
  | [], _, _ => rfl
  | [_], h, _ => absurd h (by simp)
  | high :: low :: digits, heven, hall => by
      simp only [List.forall_mem_cons] at hall
      obtain ⟨hhigh, hlow, hall⟩ := hall
      have htail := map_toUpper_eq_of_even
        (by rw [List.length_cons, List.length_cons] at heven; omega) hall
      have hhighLt := digitValue_lt hhigh
      have hlowLt := digitValue_lt hlow
      have hnat : (UInt8.ofNat (16 * digitValue high + digitValue low)).toNat =
          16 * digitValue high + digitValue low := by
        rw [UInt8.toNat_ofNat']
        omega
      have hdiv : (16 * digitValue high + digitValue low) / 16 = digitValue high := by omega
      have hmod : (16 * digitValue high + digitValue low) % 16 = digitValue low := by omega
      rw [bytesOf_cons_cons, List.flatMap_cons, hexByteDigits, hnat, hdiv, hmod,
        hexDigit_digitValue hhigh, hexDigit_digitValue hlow, List.map_cons, List.map_cons, htail]
      rfl

/-! ### The three outcomes -/

theorem decode_of_fault {s : String} {front back : List Char} {c : Char}
    (hs : s.toList = front ++ c :: back) (hfront : ∀ d ∈ front, isFault d = false)
    (hc : isFault c = true) : decode s = .error (.invalidDigit front.length c) := by
  rw [decode, hs, readDigits_append hfront, readDigits_of_fault hc, Nat.zero_add]
  rfl

theorem readDigits_of_clean {s : String} (h : ∀ c ∈ s.toList, isFault c = false) :
    readDigits s.toList 0 [] = .ok ((inked s.toList).map digitValue) := by
  have hpass := readDigits_append h [] 0 []
  rw [List.append_nil, List.append_nil] at hpass
  rw [hpass, readDigits, List.reverse_reverse]

theorem decode_of_odd {s : String} (h : ∀ c ∈ s.toList, isFault c = false)
    (hodd : (inked s.toList).length % 2 = 1) :
    decode s = .error (.oddLength (inked s.toList).length) := by
  rw [decode, readDigits_of_clean h]
  show (if _ then _ else _) = _
  rw [List.length_map, if_neg (by omega)]

theorem decode_of_even {s : String} (h : ∀ c ∈ s.toList, isFault c = false)
    (heven : (inked s.toList).length % 2 = 0) :
    decode s = .ok (bytesOf (inked s.toList)) := by
  rw [decode, readDigits_of_clean h]
  show (if _ then _ else _) = _
  rw [List.length_map, if_pos heven, joinDigits_eq]
  rfl

/-- **Every text with a fault has a first one**, which is the one that is reported. -/
theorem exists_first_fault {cs : List Char} (h : ∃ c ∈ cs, isFault c = true) :
    ∃ front c back, cs = front ++ c :: back ∧ isFault c = true ∧
      ∀ d ∈ front, isFault d = false := by
  obtain ⟨c, hc⟩ := Option.isSome_iff_exists.mp (List.find?_isSome.mpr h)
  obtain ⟨hfault, front, back, hcs, hfront⟩ := List.find?_eq_some_iff_append.mp hc
  refine ⟨front, c, back, hcs, hfault, ?_⟩
  intro d hd
  simpa using hfront d hd

/-- **A text is read as bytes exactly when they are written so**, blanks and case apart. -/
theorem decode_eq_ok_iff {s : String} {bytes : List Byte} :
    decode s = .ok bytes ↔
      (inked s.toList).map Char.toUpper = bytes.flatMap hexByteDigits := by
  constructor
  · intro hok
    by_cases hfault : ∃ c ∈ s.toList, isFault c = true
    · obtain ⟨front, c, back, hs, hc, hfront⟩ := exists_first_fault hfault
      rw [decode_of_fault hs hfront hc] at hok
      exact absurd hok (by simp)
    · have hclean : ∀ c ∈ s.toList, isFault c = false := by simpa using hfault
      rcases Nat.mod_two_eq_zero_or_one (inked s.toList).length with heven | hodd
      · rw [decode_of_even hclean heven] at hok
        rw [map_toUpper_eq_of_even heven (isHexDigit_of_mem_inked hclean), Except.ok.inj hok]
      · rw [decode_of_odd hclean hodd] at hok
        exact absurd hok (by simp)
  · intro hwritten
    obtain ⟨hlength, hdigits, hbytes⟩ := bytesOf_of_map_toUpper_eq hwritten
    rw [decode_of_even (isFault_eq_false_of_inked hdigits) (by omega), hbytes]

end HexProgram

/-! ### Loading a written program -/

namespace Memory

open HexProgram

theorem loadHex_of_error {m : Memory} {s : String} {e : LoadError}
    (h : HexProgram.decode s = .error e) (offset : Address) :
    m.loadHex s offset = (.error e, m) := by
  rw [loadHex, h]

theorem loadHex_of_ok {m : Memory} {s : String} {bytes : List Byte}
    (h : HexProgram.decode s = .ok bytes) (offset : Address) :
    m.loadHex s offset = (.ok bytes.length, m.load bytes offset) := by
  rw [loadHex, h]

/-- Loading succeeds only by reading the text as bytes. -/
theorem exists_bytes_of_loadHex {m m' : Memory} {s : String} {offset : Address} {n : Nat}
    (h : m.loadHex s offset = (.ok n, m')) : ∃ bytes, HexProgram.decode s = .ok bytes := by
  cases hd : HexProgram.decode s with
  | ok bytes => exact ⟨bytes, rfl⟩
  | error e =>
      rw [loadHex_of_error hd] at h
      exact absurd (congrArg Prod.fst h) (by simp)

/--
**What loading a text does.**  A character that is neither blank nor a digit is reported,
the first one if there are more, with its place among all characters, whatever the
number of digits.  Without one, an odd number of digits is reported.  Otherwise the bytes
that the digits make two by two, blanks left out, go into memory one after another.
Where something is reported, memory stays as it is.  A text with the same digits but
for case, blanks left out, is loaded alike, and bytes are loaded from any text in which
they are written.
-/
theorem loadHex_outcome (m : Memory) (s : String) (offset : Address) :
    let digits := inked s.toList
    ((∃ c ∈ s.toList, isFault c = true) →
      ∃ i c, s.toList[i]? = some c ∧ isFault c = true ∧
        (∀ j < i, ∀ d, s.toList[j]? = some d → isFault d = false) ∧
        m.loadHex s offset = (.error (.invalidDigit i c), m)) ∧
    ((∀ c ∈ s.toList, isFault c = false) → digits.length % 2 = 1 →
      m.loadHex s offset = (.error (.oddLength digits.length), m)) ∧
    ((∀ c ∈ s.toList, isFault c = false) → digits.length % 2 = 0 →
      m.loadHex s offset = (.ok (digits.length / 2), m.load (bytesOf digits) offset)) ∧
    (∀ t n m', digits.map Char.toUpper = (inked t.toList).map Char.toUpper →
      m.loadHex s offset = (.ok n, m') → m.loadHex t offset = (.ok n, m')) ∧
    ∀ bytes, digits.map Char.toUpper = bytes.flatMap hexByteDigits →
      m.loadHex s offset = (.ok bytes.length, m.load bytes offset) := by
  intro digits
  refine ⟨?_, ?_, ?_, ?_, ?_⟩
  · intro hfault
    obtain ⟨front, c, back, hs, hc, hfront⟩ := exists_first_fault hfault
    refine ⟨front.length, c, ?_, hc, ?_, loadHex_of_error (decode_of_fault hs hfront hc) offset⟩
    · rw [hs, List.getElem?_append_right (Nat.le_refl _), Nat.sub_self, List.getElem?_cons_zero]
    · intro j hj d hd
      rw [hs, List.getElem?_append_left hj] at hd
      exact hfront d (List.mem_of_getElem? hd)
  · intro hclean hodd
    exact loadHex_of_error (decode_of_odd hclean hodd) offset
  · intro hclean heven
    have hlength : (bytesOf digits).length = digits.length / 2 := by
      rw [bytesOf, List.length_map, List.length_range]
    rw [loadHex_of_ok (decode_of_even hclean heven), hlength]
  · intro t n m' hsame hok
    obtain ⟨bytes, hbytes⟩ := exists_bytes_of_loadHex hok
    have hother : HexProgram.decode t = .ok bytes := by
      rw [decode_eq_ok_iff, ← hsame]
      exact decode_eq_ok_iff.mp hbytes
    rw [loadHex_of_ok hother, ← hok, loadHex_of_ok hbytes]
  · intro bytes hwritten
    exact loadHex_of_ok (decode_eq_ok_iff.mpr hwritten) offset

/-- A fault behind an odd number of digits, digits that do not pair up, and a byte in two parts. -/
theorem loadHex_outcome_brokenByte :
    let m := Memory.zero
    (∃ c ∈ "A9 0g".toList, isFault c = true) ∧
    m.loadHex "A9 0g" 0 = (.error (.invalidDigit 4 'g'), m) ∧
    (∀ c ∈ "A9 0".toList, isFault c = false) ∧ (inked "A9 0".toList).length % 2 = 1 ∧
    m.loadHex "A9 0" 0 = (.error (.oddLength 3), m) ∧
    (∀ c ∈ "a 9".toList, isFault c = false) ∧ (inked "a 9".toList).length % 2 = 0 ∧
    m.loadHex "a 9" 0 = (.ok 1, m.load [0xA9] 0) ∧ (m.loadHex "a 9" 0).2.get 0 = 0xA9 ∧
    (inked "a 9".toList).map Char.toUpper = (inked "A9".toList).map Char.toUpper ∧
    m.loadHex "A9" 0 = (.ok 1, m.load [0xA9] 0) ∧
    (inked "A9".toList).map Char.toUpper = [0xA9].flatMap hexByteDigits ∧
    m.loadHex "A9" 0 = (.ok [0xA9].length, m.load [0xA9] 0) := by
  intro m
  have hfault : ∃ c ∈ "A9 0g".toList, isFault c = true := ⟨'g', by decide +kernel, by decide⟩
  have hodd : ∀ c ∈ "A9 0".toList, isFault c = false :=
    isFault_eq_false_of_all (by decide +kernel)
  have heven : ∀ c ∈ "a 9".toList, isFault c = false :=
    isFault_eq_false_of_all (by decide +kernel)
  have hcase : (inked "a 9".toList).map Char.toUpper = (inked "A9".toList).map Char.toUpper := by
    decide +kernel
  have hwritten : (inked "A9".toList).map Char.toUpper = [0xA9].flatMap hexByteDigits := by
    decide +kernel
  obtain ⟨hreported, -⟩ := loadHex_outcome m "A9 0g" 0
  obtain ⟨-, hunpaired, -⟩ := loadHex_outcome m "A9 0" 0
  obtain ⟨-, -, hloaded, halike, -⟩ := loadHex_outcome m "a 9" 0
  obtain ⟨-, -, -, -, hback⟩ := loadHex_outcome m "A9" 0
  have hbyte : m.loadHex "a 9" 0 = (.ok 1, m.load [0xA9] 0) := hloaded heven (by decide +kernel)
  have hcell : (m.loadHex "a 9" 0).2.get 0 = 0xA9 := by
    rw [hbyte]
    simp [m]
  have hplace : m.loadHex "A9 0g" 0 = (.error (.invalidDigit 4 'g'), m) := by
    obtain ⟨i, c, hc, hbad, hfirst, hresult⟩ := hreported hfault
    have hletters : "A9 0g".toList = ['A', '9', ' ', '0', 'g'] := by decide +kernel
    rw [hletters] at hc hfirst
    have hclean : ∀ d ∈ ['A', '9', ' ', '0'], isFault d = false :=
      isFault_eq_false_of_all (by decide)
    have hle : i ≤ 4 :=
      Nat.le_of_not_lt fun hlater => absurd (hfirst 4 hlater 'g' rfl) (by decide)
    rcases Nat.lt_or_eq_of_le hle with hbefore | rfl
    · rw [show ['A', '9', ' ', '0', 'g'] = ['A', '9', ' ', '0'] ++ ['g'] from rfl,
        List.getElem?_append_left hbefore] at hc
      exact absurd hbad (by rw [hclean c (List.mem_of_getElem? hc)]; decide)
    · obtain rfl := Option.some.inj hc
      exact hresult
  exact ⟨hfault, hplace, hodd, by decide +kernel, hunpaired hodd (by decide +kernel), heven,
    by decide +kernel, hbyte, hcell, hcase, halike "A9" 1 _ hcase hbyte, hwritten,
    hback [0xA9] hwritten⟩

end Memory

end Nmos6502
