/-
A character between single quotes, as messages show it.

A character that is seen between the quotes stands for itself, the quote and the
backslash behind a backslash.  NUL, tab, line feed and carriage return have names; every
other character that would not be seen, or would be drawn onto the quote, is given by
the number of its code point in lower-case hexadecimal without leading zeros.
-/
import Nmos6502.Text.Unprintable

namespace Nmos6502

/-- Whether a character would be drawn onto the quote before it.  Of the characters that
extend a grapheme only the halfwidth katakana sound marks, U+FF9E and U+FF9F, have a
cell of their own. -/
def overlaysPrevious (c : Char) : Bool :=
  extendsGrapheme c && !(c.toNat == 0xFF9E || c.toNat == 0xFF9F)

/-- Whether a character is seen between quotes as the character it is. -/
def isVisible (c : Char) : Bool :=
  isPrintable c && !isIgnorable c && !overlaysPrevious c

/-- What stands between the quotes for a character. -/
def escapeChar (c : Char) : String :=
  if c = '\x00' then "\\0"
  else if c = '\t' then "\\t"
  else if c = '\n' then "\\n"
  else if c = '\r' then "\\r"
  else if c = '\'' then "\\'"
  else if c = '\\' then "\\\\"
  else if isVisible c then c.toString
  else "\\u\x7b" ++ String.ofList (Nat.toDigits 16 c.toNat) ++ "\x7d"

/-- A character between single quotes. -/
def quoteChar (c : Char) : String := "'" ++ escapeChar c ++ "'"

example : quoteChar 'Z' = "'Z'" := by decide +kernel

example : quoteChar (Char.ofNat 0x301) = "'\\u\x7b301\x7d'" := by decide +kernel

/-- A Hangul filler is a letter, and not seen. -/
example : quoteChar (Char.ofNat 0x3164) = "'\\u\x7b3164\x7d'" := by decide +kernel

example : isVisible (Char.ofNat 0xFF9F) = true := by decide +kernel

end Nmos6502
