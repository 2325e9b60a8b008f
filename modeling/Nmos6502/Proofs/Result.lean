/-
The byte that an instruction computes.

`Decoded.result` is the data path of the instruction set in byte arithmetic: one formula
for each instruction that lets a byte decide the zero and negative bits, over the machine
before it and the operand that decoding has resolved.  It says nothing of where the byte
goes or which bits it decides; `Proofs/Footprint` and `Proofs/Traffic` say that.

The arithmetic unit takes its sums in the natural numbers and cuts them, and moves bits
by halving and doubling.  The lemmas here bring what it computes to the operations of the
byte itself.
-/
import Nmos6502.Proofs.Fetch

namespace Nmos6502

/-! ### The arithmetic unit in byte arithmetic -/

theorem addWithCarry_value (a v : Byte) (carry : Bool) :
    (addWithCarry a v carry).value = a + v + carry.toUInt8 := by
  have hcarry : UInt8.ofNat carry.toNat = carry.toUInt8 := by cases carry <;> rfl
  show UInt8.ofNat (a.toNat + v.toNat + carry.toNat) = _
  rw [UInt8.ofNat_add, UInt8.ofNat_add, UInt8.ofNat_toNat, UInt8.ofNat_toNat, hcarry]

/-- A clear carry is a borrow of one. -/
theorem subtractWithBorrow_value (a v : Byte) (carry : Bool) :
    (subtractWithBorrow a v carry).value = a - v - (1 - carry.toUInt8) := by
  rw [subtractWithBorrow, addWithCarry_value, UInt8.not_eq_neg_sub]
  grind

theorem shiftLeft_value (v : Byte) (low : Bool) :
    (shiftLeft v low).value = v <<< 1 ||| low.toUInt8 := by
  revert v low
  apply forall_byte
  decide +kernel

theorem shiftRight_value (v : Byte) (high : Bool) :
    (shiftRight v high).value = v >>> 1 ||| high.toUInt8 <<< 7 := by
  revert v high
  apply forall_byte
  decide +kernel

theorem signBit_eq_testBit (b : Byte) : signBit b = b.toNat.testBit 7 := by
  revert b
  apply forall_byte
  decide +kernel

/-- The stack page is the high half of a cell's address, and the stack pointer the low half. -/
theorem Machine.stackCell_eq_or (sp : Byte) : stackCell sp = 0x0100 ||| sp.toUInt16 := by
  revert sp
  apply forall_byte
  decide +kernel

/-! ### The result of an instruction -/

namespace Decoded

variable {σ : Type} [Bus σ]

/--
The byte that an instruction computes from the machine before it, zero for one that
computes none.
-/
def result (d : Decoded) (m : Machine σ) : Byte :=
  let v := m.operandValue d.operand
  let carry := m.status.carry.toUInt8
  match d.instruction with
  | .lda | .ldx | .ldy => v
  | .adc => m.a + v + carry
  | .sbc => m.a - v - (1 - carry)
  | .and => m.a &&& v
  | .ora => m.a ||| v
  | .eor => m.a ^^^ v
  | .cmp => m.a - v
  | .cpx => m.x - v
  | .cpy => m.y - v
  | .asl => v <<< 1
  | .lsr => v >>> 1
  | .rol => v <<< 1 ||| carry
  | .ror => v >>> 1 ||| carry <<< 7
  | .inc => v + 1
  | .dec => v - 1
  | .inx => m.x + 1
  | .iny => m.y + 1
  | .dex => m.x - 1
  | .dey => m.y - 1
  | .tax | .tay => m.a
  | .txa => m.x
  | .tya => m.y
  | .tsx => m.sp
  | .pla => Bus.read m.bus (0x0100 ||| (m.sp + 1).toUInt16)
  | _ => 0

/-- The result is what the family makes of its operand, of a register or of the stack. -/
theorem result_of_family (d : Decoded) (m : Machine σ) :
    let v := m.operandValue d.operand
    match d.instruction.family with
    | .load _ => d.result m = v
    | .accumulate sum => d.result m = (sum m.a v m.status.carry).value
    | .combine op => d.result m = op m.a v
    | .compare r => d.result m = (compareBytes (m.get r) v).difference
    | .modify op => d.result m = (op v m.status.carry).value
    | .adjustRegister r delta => d.result m = m.get r + delta
    | .transfer source _ => d.result m = m.get source
    | .pullAccumulator => d.result m = m.pull.1
    | _ => True := by
  intro v
  cases hi : d.instruction with
  | adc =>
      show d.result m = (addWithCarry _ _ _).value
      rw [addWithCarry_value, result, hi]
  | sbc =>
      show d.result m = (subtractWithBorrow _ _ _).value
      rw [subtractWithBorrow_value, result, hi]
  | asl =>
      show d.result m = (shiftLeft _ _).value
      rw [shiftLeft_value, result, hi]
      exact UInt8.or_zero.symm
  | lsr =>
      show d.result m = (shiftRight _ _).value
      rw [shiftRight_value, result, hi]
      exact UInt8.or_zero.symm
  | rol =>
      show d.result m = (shiftLeft _ _).value
      rw [shiftLeft_value, result, hi]
  | ror =>
      show d.result m = (shiftRight _ _).value
      rw [shiftRight_value, result, hi]
  | dec | dex | dey =>
      rw [result, hi]
      exact UInt8.sub_eq_add_neg _ _
  | pla =>
      show d.result m = Bus.read m.bus (Machine.stackCell (m.sp + 1))
      rw [Machine.stackCell_eq_or, result, hi]
  | lda | ldx | ldy | and | ora | eor | cmp | cpx | cpy | inc | inx | iny
  | tax | tay | txa | tya | tsx =>
      rw [result, hi]
      rfl
  | _ => trivial

end Decoded

end Nmos6502
