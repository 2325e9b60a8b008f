/-
Blank characters: the ones with the Unicode property White_Space.

Program text and flag lists may hold any of them between their parts.  Zero-width
characters, the byte-order mark and the four information separators U+001C to U+001F
do not have the property, so they count as text.
-/

namespace Nmos6502

/-- The ranges of code points with the property White_Space, first and last. -/
def blankRanges : List (Nat × Nat) :=
  [(0x09, 0x0D), (0x20, 0x20), (0x85, 0x85), (0xA0, 0xA0), (0x1680, 0x1680), (0x2000, 0x200A),
   (0x2028, 0x2029), (0x202F, 0x202F), (0x205F, 0x205F), (0x3000, 0x3000)]

/-- Whether a character is blank. -/
def isBlank (c : Char) : Bool :=
  blankRanges.any fun r => r.1 ≤ c.toNat && c.toNat ≤ r.2

/-- The characters of a text without the blanks before and behind them. -/
def trimBlanks (cs : List Char) : List Char :=
  ((cs.dropWhile isBlank).reverse.dropWhile isBlank).reverse

end Nmos6502
