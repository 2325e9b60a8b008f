/-
Bytes, addresses and the two halves of an address.

The processor moves bytes over a sixteen-line address bus, so a word of memory is
two bytes, low byte first.  Everything that wraps does so because the type is as
wide as the register that holds it: nothing in the library reduces modulo 256 or
65536 by hand.
-/

namespace Nmos6502

/-- What one memory cell or an eight-bit register holds. -/
abbrev Byte := UInt8

/-- What the sixteen address lines carry. -/
abbrev Address := UInt16

/-- Bit 7, which is the sign of a byte read in two's complement. -/
def signBit (b : Byte) : Bool := 0x80 ≤ b

/-- The half of an address that is stored first. -/
def lowByte (a : Address) : Byte := a.toUInt8

/-- The half of an address that is stored second, and pushed first. -/
def highByte (a : Address) : Byte := (a >>> 8).toUInt8

/-- The address whose halves are `low` and `high`. -/
def wordOf (low high : Byte) : Address := low.toUInt16 + 0x100 * high.toUInt16

/--
A byte read as a signed number and widened to an address, so that adding it moves
up to 128 cells down or 127 cells up, around the end of memory if need be.
-/
def signExtend (b : Byte) : Address :=
  if signBit b then b.toUInt16 + 0xFF00 else b.toUInt16

/-- What holds of the first 256 numbers, cut to bytes, holds of every byte. -/
theorem forall_byte {P : Byte → Prop} (h : ∀ n < 256, P (UInt8.ofNat n)) (b : Byte) : P b := by
  have hb := h b.toNat b.toNat_lt
  rwa [UInt8.ofNat_toNat] at hb

/-! ### The halves of an address determine it -/

theorem signBit_eq (b : Byte) : signBit b = decide (128 ≤ b.toNat) := by
  simp [signBit, UInt8.le_iff_toNat_le]

theorem toNat_wordOf (low high : Byte) :
    (wordOf low high).toNat = low.toNat + 256 * high.toNat := by
  have hl := low.toNat_lt
  have hh := high.toNat_lt
  simp only [wordOf, UInt16.toNat_add, UInt16.toNat_mul, UInt8.toNat_toUInt16]
  simp
  omega

theorem toNat_lowByte (a : Address) : (lowByte a).toNat = a.toNat % 256 := by
  simp [lowByte]

theorem toNat_highByte (a : Address) : (highByte a).toNat = a.toNat / 256 := by
  have ha := a.toNat_lt
  simp [highByte, UInt16.toNat_shiftRight, Nat.shiftRight_eq_div_pow]
  omega

theorem wordOf_halves (a : Address) : wordOf (lowByte a) (highByte a) = a := by
  apply UInt16.toNat_inj.mp
  rw [toNat_wordOf, toNat_lowByte, toNat_highByte]
  omega

theorem lowByte_wordOf (low high : Byte) : lowByte (wordOf low high) = low := by
  apply UInt8.toNat_inj.mp
  have hl := low.toNat_lt
  rw [toNat_lowByte, toNat_wordOf]
  omega

theorem highByte_wordOf (low high : Byte) : highByte (wordOf low high) = high := by
  apply UInt8.toNat_inj.mp
  have hl := low.toNat_lt
  rw [toNat_highByte, toNat_wordOf]
  omega

/-- Widening keeps the signed value: the result is the byte, less 256 when it is negative. -/
theorem toNat_signExtend (b : Byte) :
    (signExtend b).toNat = if 128 ≤ b.toNat then b.toNat + 65280 else b.toNat := by
  have hb := b.toNat_lt
  unfold signExtend
  rw [signBit_eq]
  by_cases h : 128 ≤ b.toNat
  · simp [h]
    omega
  · simp [h]

end Nmos6502
