/-
Numbers of several bytes.

A number that is wider than a register lies in memory low byte first, and a program works
on it from that end.  `littleEndian` is what such bytes are worth unsigned and
`twosComplement` what they are worth signed.  Either is the low byte and 256 times the
rest, and whether a number fits so many signed bytes does not depend on its low byte: that
is the form that an induction over the bytes needs, from one byte up.
-/
import Mathlib.Algebra.Ring.Int.Defs
import Mathlib.Algebra.Ring.Nat
import Nmos6502.Word

namespace Nmos6502

/-- The number that bytes stand for, low byte first. -/
def littleEndian : List Byte → Nat
  | [] => 0
  | b :: bs => b.toNat + 256 * littleEndian bs

/-- The number that bytes stand for in two's complement, as wide as they are together. -/
def twosComplement (bs : List Byte) : Int :=
  (BitVec.ofNat (8 * bs.length) (littleEndian bs)).toInt

theorem littleEndian_lt (bs : List Byte) : littleEndian bs < 256 ^ bs.length := by
  induction bs with
  | nil => exact Nat.one_pos
  | cons b bs ih =>
      have hb := b.toNat_lt
      rw [littleEndian, List.length_cons, Nat.pow_succ]
      omega

/-- A byte at the high end counts for as much as all the bytes below it can hold, and one. -/
theorem littleEndian_concat (bs : List Byte) (b : Byte) :
    littleEndian (bs ++ [b]) = littleEndian bs + 256 ^ bs.length * b.toNat := by
  induction bs with
  | nil => simp [littleEndian]
  | cons c bs ih =>
      rw [List.cons_append, littleEndian, littleEndian, ih, List.length_cons, Nat.pow_succ',
        Nat.mul_add, Nat.add_assoc, Nat.mul_assoc]

/-- So many bytes stand for different numbers unless they are the same. -/
theorem littleEndian_injective {bs cs : List Byte} (hlength : bs.length = cs.length)
    (h : littleEndian bs = littleEndian cs) : bs = cs := by
  induction bs generalizing cs with
  | nil => exact (List.length_eq_zero_iff.mp hlength.symm).symm
  | cons b bs ih =>
      obtain ⟨c, cs, rfl⟩ := List.exists_cons_of_length_eq_add_one hlength.symm
      have hb := b.toNat_lt
      have hc := c.toNat_lt
      rw [littleEndian, littleEndian] at h
      have hlow : b = c := UInt8.toNat_inj.mp (by omega)
      rw [hlow, ih (Nat.succ.inj hlength) (by omega)]

/-- The bits above the low byte are those of the rest. -/
theorem testBit_littleEndian_cons (b : Byte) (bs : List Byte) (i : Nat) :
    (littleEndian (b :: bs)).testBit (i + 8) = (littleEndian bs).testBit i := by
  have hb := b.toNat_lt
  have hdiv : littleEndian (b :: bs) / 2 ^ 8 = littleEndian bs := by
    rw [littleEndian]
    omega
  rw [← hdiv, Nat.testBit_div_two_pow]

/-- Bytes and their complements have all bits between them. -/
theorem littleEndian_complement (bs : List Byte) :
    littleEndian (bs.map (~~~ ·)) + littleEndian bs + 1 = 256 ^ bs.length := by
  induction bs with
  | nil => rfl
  | cons b bs ih =>
      have hb := b.toNat_lt
      have hnot : (~~~b).toNat = 255 - b.toNat := UInt8.toNat_not b
      rw [List.map_cons, littleEndian, littleEndian, List.length_cons, Nat.pow_succ, hnot]
      omega

/-! ### The signed reading -/

/-- Half of what the bytes can stand for is negative. -/
theorem two_mul_pow_eq {k : Nat} (hk : 1 ≤ k) : 2 * 2 ^ (8 * k - 1) = 256 ^ k := by
  rw [← Nat.pow_succ', Nat.succ_eq_add_one, Nat.sub_add_cancel (by omega), Nat.pow_mul]

theorem twosComplement_eq (bs : List Byte) :
    twosComplement bs = if 2 * littleEndian bs < 256 ^ bs.length then (littleEndian bs : Int)
      else littleEndian bs - (256 ^ bs.length : Nat) := by
  have hpow : 2 ^ (8 * bs.length) = 256 ^ bs.length := Nat.pow_mul 2 8 _
  rw [twosComplement, BitVec.toInt_eq_toNat_cond, BitVec.toNat_ofNat, hpow,
    Nat.mod_eq_of_lt (littleEndian_lt bs)]

/-- The sign says in which half of the bytes a byte is. -/
theorem signBit_bounds (b : Byte) :
    128 * (signBit b).toNat ≤ b.toNat ∧ b.toNat < 128 * (signBit b).toNat + 128 := by
  have hb := b.toNat_lt
  rw [signBit_eq]
  by_cases hsign : 128 ≤ b.toNat
  · rw [decide_eq_true hsign, Bool.toNat_true]
    omega
  · rw [decide_eq_false hsign, Bool.toNat_false]
    omega

/-- A negative byte is worth 256 less than unsigned. -/
theorem twosComplement_singleton (b : Byte) :
    twosComplement [b] = b.toNat - 256 * (signBit b).toNat := by
  obtain ⟨hlow, hhigh⟩ := signBit_bounds b
  have hb : littleEndian [b] = b.toNat := Nat.add_zero _
  have hpow : 256 ^ [b].length = 256 := rfl
  rw [twosComplement_eq, hb, hpow]
  cases hsign : signBit b with
  | false =>
      rw [hsign, Bool.toNat_false] at hhigh
      rw [if_pos (by omega), Bool.toNat_false]
      omega
  | true =>
      rw [hsign, Bool.toNat_true] at hlow
      rw [if_neg (by omega), Bool.toNat_true]
      rfl

/-- All bytes but the highest are read unsigned. -/
theorem twosComplement_cons (b : Byte) {bs : List Byte} (hbs : 1 ≤ bs.length) :
    twosComplement (b :: bs) = b.toNat + 256 * twosComplement bs := by
  have hb := b.toNat_lt
  have hhalf := two_mul_pow_eq hbs
  rw [twosComplement_eq, twosComplement_eq, littleEndian, List.length_cons, Nat.pow_succ, ← hhalf]
  split <;> split <;> omega

/-- Complementing all bytes changes the sign and takes one. -/
theorem twosComplement_complement {bs : List Byte} (hbs : 1 ≤ bs.length) :
    twosComplement (bs.map (~~~ ·)) = -twosComplement bs - 1 := by
  have hsum := littleEndian_complement bs
  have hhalf := two_mul_pow_eq hbs
  rw [twosComplement_eq, twosComplement_eq, List.length_map]
  split <;> split <;> omega

/-- Whether a number can be written in so many bytes of two's complement. -/
def FitsSigned (k : Nat) (t : Int) : Prop := -2 ^ (8 * k - 1) ≤ t ∧ t ≤ 2 ^ (8 * k - 1) - 1

instance (k : Nat) (t : Int) : Decidable (FitsSigned k t) := inferInstanceAs (Decidable (_ ∧ _))

/-- Whether a number fits is decided above its low byte. -/
theorem fitsSigned_cons {k : Nat} (hk : 1 ≤ k) (b : Byte) (t : Int) :
    FitsSigned (k + 1) (b.toNat + 256 * t) ↔ FitsSigned k t := by
  have hb := b.toNat_lt
  have hexp : 8 * (k + 1) - 1 = 8 * k - 1 + 8 := by omega
  have hpow : (2 : Int) ^ (8 * (k + 1) - 1) = 2 ^ (8 * k - 1) * 256 := by
    rw [hexp, Int.pow_add]
    rfl
  rw [FitsSigned, FitsSigned, hpow]
  omega

end Nmos6502
