/-
What the arithmetic unit computes, apart from where the bytes come from.

Addition with carry, subtraction with borrow, comparison and the two shifts, each as a
function from bytes to a byte and the flags it decides.  The sums are taken in the
natural numbers, where nothing wraps, and cut to a byte at the end; the carry is what
was cut off.  Decimal mode plays no part: addition is binary whatever the flag says.
-/
import Nmos6502.Word

namespace Nmos6502

/-- What an addition leaves: the byte, and the flags it decides besides zero and negative. -/
structure ByteSum where
  /-- The sum, cut to a byte. -/
  value : Byte
  /-- Whether something was cut off. -/
  carry : Bool
  /-- Whether the sum of the two signed bytes does not fit a signed byte. -/
  overflow : Bool
  deriving DecidableEq, Repr

/--
Adds two bytes and a carry.  The signed sum overflows exactly when the two bytes have
one sign and the result has the other.
-/
def addWithCarry (a v : Byte) (carry : Bool) : ByteSum :=
  let total := a.toNat + v.toNat + carry.toNat
  let value := UInt8.ofNat total
  { value
    carry := 256 ≤ total
    overflow := signBit a == signBit v && signBit value != signBit a }

/-- Subtracts a byte and a borrow, which is a clear carry, by adding the byte's complement. -/
def subtractWithBorrow (a v : Byte) (carry : Bool) : ByteSum :=
  addWithCarry a (~~~v) carry

/-- What a comparison leaves: the difference, which only decides flags, and the carry. -/
structure Comparison where
  /-- The register less the byte. -/
  difference : Byte
  /-- Whether the register was not below the byte. -/
  carry : Bool
  deriving DecidableEq, Repr

/-- Compares a register with a byte, both unsigned. -/
def compareBytes (register v : Byte) : Comparison where
  difference := register - v
  carry := v ≤ register

/-- What a shift leaves: the byte, and the bit that fell out. -/
structure Shifted where
  value : Byte
  carry : Bool
  deriving DecidableEq, Repr

/-- Moves every bit one place up, `low` coming in at bit 0. -/
def shiftLeft (v : Byte) (low : Bool) : Shifted where
  value := v + v + (if low then 1 else 0)
  carry := signBit v

/-- Moves every bit one place down, `high` coming in at bit 7. -/
def shiftRight (v : Byte) (high : Bool) : Shifted where
  value := v / 2 + (if high then 0x80 else 0)
  carry := v.toNat % 2 == 1

/-! ### The operations as integer equations -/

/-- Sum and carry together are the exact sum. -/
theorem addWithCarry_exact (a v : Byte) (carry : Bool) :
    (addWithCarry a v carry).value.toNat + 256 * (addWithCarry a v carry).carry.toNat =
      a.toNat + v.toNat + carry.toNat := by
  have ha := a.toNat_lt
  have hv := v.toNat_lt
  have hc := carry.toNat_le
  by_cases h : 256 ≤ a.toNat + v.toNat + carry.toNat
  · simp [addWithCarry, h]
    omega
  · simp [addWithCarry, h]
    omega

/-- Result and bit shifted out together are twice the byte and the bit shifted in. -/
theorem shiftLeft_exact (v : Byte) (low : Bool) :
    (shiftLeft v low).value.toNat + 256 * (shiftLeft v low).carry.toNat =
      2 * v.toNat + low.toNat := by
  have hv := v.toNat_lt
  by_cases h : 128 ≤ v.toNat <;> cases low <;> simp [shiftLeft, signBit_eq, h] <;> omega

/-- Twice the result and the bit shifted out together are the byte and the bit shifted in. -/
theorem shiftRight_exact (v : Byte) (high : Bool) :
    2 * (shiftRight v high).value.toNat + (shiftRight v high).carry.toNat =
      v.toNat + 256 * high.toNat := by
  have hv := v.toNat_lt
  rcases Nat.mod_two_eq_zero_or_one v.toNat with h | h <;> cases high <;>
    simp [shiftRight, h] <;> omega

end Nmos6502
