/-
Hexadecimal text.

Listings and messages write a byte with two digits and an address with four, always
in upper case, so a number's text has a fixed width and never runs into what follows
it.  Reading takes either case: `hexValue?` is the one place that says which
characters are digits.
-/
import Nmos6502.Word

namespace Nmos6502

/-- The upper-case digit of a number below sixteen. -/
def hexDigit (n : Nat) : Char :=
  if n < 10 then Char.ofNat (48 + n) else Char.ofNat (55 + n)

/-- The value of a hexadecimal digit of either case. -/
def hexValue? (c : Char) : Option Nat :=
  if 48 ≤ c.toNat ∧ c.toNat ≤ 57 then some (c.toNat - 48)
  else if 65 ≤ c.toNat ∧ c.toNat ≤ 70 then some (c.toNat - 55)
  else if 97 ≤ c.toNat ∧ c.toNat ≤ 102 then some (c.toNat - 87)
  else none

/-- The two digits of a byte. -/
def hexByteDigits (b : Byte) : List Char :=
  [hexDigit (b.toNat / 16), hexDigit (b.toNat % 16)]

/-- A byte in two digits. -/
def hexByte (b : Byte) : String := String.ofList (hexByteDigits b)

/-- An address in four digits. -/
def hexAddress (a : Address) : String :=
  String.ofList (hexByteDigits (highByte a) ++ hexByteDigits (lowByte a))

example : hexAddress 0x0A0F = "0A0F" := by decide +kernel

/-! ### A digit reads back as its value -/

theorem hexValue?_hexDigit {n : Nat} (h : n < 16) : hexValue? (hexDigit n) = some n := by
  have all : ∀ n < 16, hexValue? (hexDigit n) = some n := by decide
  exact all n h

theorem hexDigit_inj {m n : Nat} (hm : m < 16) (hn : n < 16) (h : hexDigit m = hexDigit n) :
    m = n := by
  have := hexValue?_hexDigit hm
  rw [h, hexValue?_hexDigit hn] at this
  exact (Option.some.inj this).symm

theorem hexByteDigits_inj {b c : Byte} (h : hexByteDigits b = hexByteDigits c) : b = c := by
  have hb := b.toNat_lt
  have hc := c.toNat_lt
  simp only [hexByteDigits, List.cons.injEq, and_true] at h
  have hhigh := hexDigit_inj (by omega) (by omega) h.1
  have hlow := hexDigit_inj (by omega) (by omega) h.2
  apply UInt8.toNat_inj.mp
  omega

end Nmos6502
