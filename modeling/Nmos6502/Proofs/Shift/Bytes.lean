/-
Shifting numbers of any width.

A program shifts a number that is wider than a byte one byte at a time, and what falls out
of each goes into the next: `shiftThrough`.  Bytes and carry are then one row of bits, in
which the carry is either the highest or the lowest.  Read the row both ways, as
`carryAbove` and `carryBelow`, and a shift up leaves the row as it was with the carry below
standing with the carry above, and a shift down the other way round.  That the two undo
each other, and that either loses nothing, is then no more than that a row of bits of given
length is determined by its number.

Shifting up and reading the carry below doubles the row but for its highest bit, so it is
multiplication by two modulo one less than the row can hold.  For `k` bytes there are
`8 * k + 1` bits, and after as many turns the row is where it was, `iterate_turn`.
-/
import Mathlib.Data.Nat.ModEq
import Nmos6502.Arithmetic
import Nmos6502.Proofs.LittleEndian

namespace Nmos6502

/-! ### A carry and bytes as one row of bits -/

/-- The number that bytes and a carry stand for if the carry is the highest bit. -/
def carryAbove (bs : List Byte) (carry : Bool) : Nat :=
  littleEndian bs + 256 ^ bs.length * carry.toNat

/-- The number that bytes and a carry stand for if the carry is the lowest bit. -/
def carryBelow (bs : List Byte) (carry : Bool) : Nat := 2 * littleEndian bs + carry.toNat

theorem carryAbove_lt (bs : List Byte) (carry : Bool) :
    carryAbove bs carry < 2 * 256 ^ bs.length := by
  have hbs := littleEndian_lt bs
  unfold carryAbove
  cases carry <;> simp only [Bool.toNat_false, Bool.toNat_true] <;> omega

theorem carryAbove_injective {bs cs : List Byte} {carry carry' : Bool}
    (hlength : bs.length = cs.length) (h : carryAbove bs carry = carryAbove cs carry') :
    bs = cs ∧ carry = carry' := by
  have hbs := littleEndian_lt bs
  have hcs := littleEndian_lt cs
  unfold carryAbove at h
  rw [← hlength] at hcs h
  obtain rfl : carry = carry' := by
    cases carry <;> cases carry' <;> simp only [Bool.toNat_false, Bool.toNat_true] at h <;>
      first | rfl | omega
  exact ⟨littleEndian_injective hlength (by omega), rfl⟩

theorem carryBelow_injective {bs cs : List Byte} {carry carry' : Bool}
    (hlength : bs.length = cs.length) (h : carryBelow bs carry = carryBelow cs carry') :
    bs = cs ∧ carry = carry' := by
  unfold carryBelow at h
  obtain rfl : carry = carry' := by
    cases carry <;> cases carry' <;> simp only [Bool.toNat_false, Bool.toNat_true] at h <;>
      first | rfl | omega
  exact ⟨littleEndian_injective hlength (by omega), rfl⟩

/-! ### A shift through the bytes -/

/--
The bytes after a shift has gone over them from the first to the last, what falls out of
each going into the next, and what falls out of the last.
-/
def shiftThrough (op : Byte → Bool → Shifted) : List Byte → Bool → List Byte × Bool
  | [], carry => ([], carry)
  | b :: bs, carry =>
      let s := op b carry
      let (rest, out) := shiftThrough op bs s.carry
      (s.value :: rest, out)

theorem length_shiftThrough (op : Byte → Bool → Shifted) (bs : List Byte) (carry : Bool) :
    (shiftThrough op bs carry).1.length = bs.length := by
  induction bs generalizing carry with
  | nil => rfl
  | cons b bs ih => exact congrArg (· + 1) (ih _)

/-- **Shifting up, from the low end, takes the carry from below to above.** -/
theorem carryAbove_shiftThrough (bs : List Byte) (carry : Bool) :
    let (rs, out) := shiftThrough shiftLeft bs carry
    carryAbove rs out = carryBelow bs carry := by
  induction bs generalizing carry with
  | nil => simp [shiftThrough, carryAbove, carryBelow, littleEndian]
  | cons b bs ih =>
      have hbyte := shiftLeft_exact b carry
      have hlength := length_shiftThrough shiftLeft bs (shiftLeft b carry).carry
      have hrest := ih (shiftLeft b carry).carry
      simp only [shiftThrough, carryAbove, carryBelow, littleEndian, List.length_cons] at hrest ⊢
      rw [hlength] at hrest ⊢
      rw [Nat.pow_succ, Nat.mul_right_comm]
      omega

/-- **Shifting down, from the high end, takes the carry from above to below.** -/
theorem carryBelow_shiftThrough (bs : List Byte) (carry : Bool) :
    let (rs, out) := shiftThrough shiftRight bs carry
    carryBelow rs.reverse out = carryAbove bs.reverse carry := by
  induction bs generalizing carry with
  | nil => simp [shiftThrough, carryAbove, carryBelow, littleEndian]
  | cons b bs ih =>
      have hbyte := shiftRight_exact b carry
      have hlength := length_shiftThrough shiftRight bs (shiftRight b carry).carry
      have hrest := ih (shiftRight b carry).carry
      simp only [shiftThrough, carryAbove, carryBelow, List.reverse_cons, littleEndian_concat,
        List.length_append, List.length_reverse, List.length_singleton, Nat.pow_succ] at hrest ⊢
      rw [hlength]
      have hscaled := congrArg (256 ^ bs.length * ·) hbyte
      simp only [Nat.mul_add, Nat.mul_left_comm _ 2] at hscaled
      rw [Nat.mul_assoc]
      omega

/-- A shift down undoes a shift up. -/
theorem shiftThrough_right_of_left {bs rs : List Byte} {carry out : Bool}
    (h : shiftThrough shiftLeft bs carry = (rs, out)) :
    shiftThrough shiftRight rs.reverse out = (bs.reverse, carry) := by
  have hup := carryAbove_shiftThrough bs carry
  have hlength := length_shiftThrough shiftLeft bs carry
  have hdown := carryBelow_shiftThrough rs.reverse out
  have hlength' := length_shiftThrough shiftRight rs.reverse out
  rw [h] at hup hlength
  rw [List.reverse_reverse] at hdown
  rw [List.length_reverse] at hlength'
  obtain ⟨hbytes, hcarry⟩ :=
    carryBelow_injective (by rw [List.length_reverse, hlength', hlength]) (hdown.trans hup)
  rw [← hcarry, ← hbytes, List.reverse_reverse]

/-- A shift up undoes a shift down. -/
theorem shiftThrough_left_of_right {bs rs : List Byte} {carry out : Bool}
    (h : shiftThrough shiftRight bs carry = (rs, out)) :
    shiftThrough shiftLeft rs.reverse out = (bs.reverse, carry) := by
  have hdown := carryBelow_shiftThrough bs carry
  have hlength := length_shiftThrough shiftRight bs carry
  have hup := carryAbove_shiftThrough rs.reverse out
  have hlength' := length_shiftThrough shiftLeft rs.reverse out
  rw [h] at hdown hlength
  rw [List.length_reverse] at hlength'
  obtain ⟨hbytes, hcarry⟩ :=
    carryAbove_injective (by rw [List.length_reverse, hlength', hlength]) (hup.trans hdown)
  rw [← hcarry, ← hbytes]

/-! ### All the way round -/

/-- One shift up of bytes and carry. -/
def turn (row : List Byte × Bool) : List Byte × Bool := shiftThrough shiftLeft row.1 row.2

/-- Reading the carry below doubles the row, modulo one less than it can hold. -/
theorem carryBelow_modEq (bs : List Byte) (carry : Bool) :
    carryBelow bs carry ≡ 2 * carryAbove bs carry [MOD 2 * 256 ^ bs.length - 1] := by
  have hpos : 0 < 256 ^ bs.length := Nat.pow_pos (by decide)
  have hdouble : 2 * carryAbove bs carry =
      carryBelow bs carry + (2 * 256 ^ bs.length - 1) * carry.toNat := by
    unfold carryAbove carryBelow
    cases carry <;> simp only [Bool.toNat_false, Bool.toNat_true] <;> omega
  rw [hdouble]
  exact (Nat.add_mul_mod_self_left _ _ _).symm

theorem carryBelow_eq_zero_iff (bs : List Byte) (carry : Bool) :
    carryBelow bs carry = 0 ↔ carryAbove bs carry = 0 := by
  have hpos : 0 < 256 ^ bs.length := Nat.pow_pos (by decide)
  unfold carryAbove carryBelow
  cases carry <;> simp only [Bool.toNat_false, Bool.toNat_true] <;> omega

/-- Any number of turns multiplies the row by as many twos, and a row of zeros stays one. -/
theorem iterate_turn_modEq (row : List Byte × Bool) (n : Nat) :
    let after := turn^[n] row
    after.1.length = row.1.length ∧
      carryAbove after.1 after.2 ≡ 2 ^ n * carryAbove row.1 row.2
        [MOD 2 * 256 ^ row.1.length - 1] ∧
      (carryAbove after.1 after.2 = 0 ↔ carryAbove row.1 row.2 = 0) := by
  induction n with
  | zero => exact ⟨rfl, by rw [Nat.pow_zero, Nat.one_mul]; rfl, Iff.rfl⟩
  | succ n ih =>
      rw [Function.iterate_succ_apply']
      set before := turn^[n] row
      obtain ⟨hlength, hmod, hzero⟩ := ih
      have hturn : carryAbove (turn before).1 (turn before).2 = carryBelow before.1 before.2 :=
        carryAbove_shiftThrough before.1 before.2
      have hdouble := carryBelow_modEq before.1 before.2
      rw [hlength] at hdouble
      refine ⟨(length_shiftThrough _ _ _).trans hlength, ?_, ?_⟩
      · rw [hturn, Nat.pow_succ', Nat.mul_assoc]
        exact hdouble.trans (hmod.mul_left 2)
      · rw [hturn]
        exact (carryBelow_eq_zero_iff _ _).trans hzero

/-- Up to the modulus itself, zero and the modulus are the only two that are one residue. -/
theorem eq_of_modEq_of_le {n a b : Nat} (h : a ≡ b [MOD n]) (ha : a ≤ n) (hb : b ≤ n)
    (hzero : a = 0 ↔ b = 0) : a = b := by
  cases a with
  | zero => exact (hzero.mp rfl).symm
  | succ a =>
      cases b with
      | zero => exact absurd (hzero.mpr rfl) (Nat.succ_ne_zero a)
      | succ b => exact congrArg (· + 1) ((h.add_right_cancel' 1).eq_of_lt_of_lt ha hb)

/-- **After one turn for each bit, carry included, the row is where it was.** -/
theorem iterate_turn (bs : List Byte) (carry : Bool) :
    turn^[8 * bs.length + 1] (bs, carry) = (bs, carry) := by
  obtain ⟨hlength, hmod, hzero⟩ := iterate_turn_modEq (bs, carry) (8 * bs.length + 1)
  set after := turn^[8 * bs.length + 1] (bs, carry)
  replace hlength : after.1.length = bs.length := hlength
  have hpos : 0 < 256 ^ bs.length := Nat.pow_pos (by decide)
  have hpow : 2 ^ (8 * bs.length + 1) = 2 * 256 ^ bs.length := by
    rw [Nat.pow_succ', Nat.pow_mul]
  -- Modulo one less than the row can hold, the power of two is one.
  have hone : 2 ^ (8 * bs.length + 1) ≡ 1 [MOD 2 * 256 ^ bs.length - 1] := by
    rw [hpow]
    exact (Nat.modEq_iff_dvd' (by omega)).mpr (dvd_refl _) |>.symm
  have hback : carryAbove after.1 after.2 ≡ carryAbove bs carry
      [MOD 2 * 256 ^ bs.length - 1] := by
    have hscaled := hone.mul_right (carryAbove bs carry)
    rw [Nat.one_mul] at hscaled
    exact hmod.trans hscaled
  have hlt := carryAbove_lt bs carry
  have hlt' := carryAbove_lt after.1 after.2
  rw [hlength] at hlt'
  have hsame : carryAbove after.1 after.2 = carryAbove bs carry :=
    eq_of_modEq_of_le hback (by omega) (by omega) hzero
  obtain ⟨hbytes, hcarry⟩ := carryAbove_injective hlength hsame
  exact Prod.ext hbytes hcarry

end Nmos6502
