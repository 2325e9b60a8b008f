/-
Operands as integer formulas.

Where an instruction finds its operand, said without machine words: a byte and an address
are numbers, every sum is taken in full, and every wrap is a remainder that is written out.
There are three of them.  An index is added to a zero-page address modulo 256, a zero-page
pointer has both its bytes in page zero, and all other sums are modulo 65536.

Only a word fetched from memory has something to prove: its two halves are below 256, so
that the word is their sum in full, and the second half lies modulo the size of the space
that the pointer runs in.  A branch's distance is the one formula with a sign, which is what
widening a byte by its sign bit comes to, modulo 65536.
-/
import Nmos6502.Addressing

namespace Nmos6502

section

variable {σ : Type} [Bus σ]

/-- The byte in the cell of a number, as a number. -/
def Bus.byteAt (bus : σ) (n : Nat) : Nat := (read bus (UInt16.ofNat n)).toNat

/-- The word of a pointer in page zero, as a number; neither of its bytes leaves the page. -/
def Bus.zeroPageWordAt (bus : σ) (p : Nat) : Nat :=
  byteAt bus (p % 256) + 256 * byteAt bus ((p + 1) % 256)

/-- The operand is the memory cell of a number. -/
def Operand.IsCell (operand : Operand) (n : Nat) : Prop :=
  ∃ a, operand = .address a ∧ a.toNat = n

/-! ### Words in memory are sums of their halves -/

theorem Bus.byteAt_toNat (bus : σ) (a : Address) : byteAt bus a.toNat = (read bus a).toNat := by
  rw [byteAt, UInt16.ofNat_toNat]

theorem Bus.byteAt_succ (bus : σ) (a : Address) :
    byteAt bus ((a.toNat + 1) % 65536) = (read bus (a + 1)).toNat := by
  have hnext : (a + 1).toNat = (a.toNat + 1) % 65536 := UInt16.toNat_add a 1
  rw [← hnext, byteAt_toNat]

/-- A cell of page zero, whose number is the byte that names it. -/
theorem Bus.byteAt_of_byte (bus : σ) (p : Byte) :
    byteAt bus p.toNat = (read bus p.toUInt16).toNat := by
  rw [← byteAt_toNat, UInt8.toNat_toUInt16]

theorem toNat_fetchWord (bus : σ) (cursor : Address) :
    (fetchWord bus cursor).1.toNat =
      Bus.byteAt bus cursor.toNat + 256 * Bus.byteAt bus ((cursor.toNat + 1) % 65536) := by
  rw [Bus.byteAt_toNat, Bus.byteAt_succ]
  exact toNat_wordOf _ _

theorem toNat_readWord (bus : σ) (a : Address) :
    (Bus.readWord bus a).toNat =
      Bus.byteAt bus a.toNat + 256 * Bus.byteAt bus ((a.toNat + 1) % 65536) := by
  rw [Bus.byteAt_toNat, Bus.byteAt_succ]
  exact toNat_wordOf _ _

/-- The pointer is given by any number that leaves its cell modulo 256. -/
theorem toNat_readZeroPageWord (bus : σ) {p : Byte} {n : Nat} (hp : p.toNat = n % 256) :
    (Bus.readZeroPageWord bus p).toNat = Bus.zeroPageWordAt bus n := by
  have hnext : (p + 1).toNat = (n + 1) % 256 := by
    rw [UInt8.toNat_add, hp]
    exact Nat.mod_add_mod n 256 1
  rw [Bus.zeroPageWordAt, ← hp, ← hnext, Bus.byteAt_of_byte, Bus.byteAt_of_byte]
  exact toNat_wordOf _ _

/-! ### Sums around the end of memory -/

theorem toNat_add_byte (a : Address) (b : Byte) :
    (a + b.toUInt16).toNat = (a.toNat + b.toNat) % 65536 := by
  rw [UInt16.toNat_add, UInt8.toNat_toUInt16]

theorem toNat_cell_add (cell index : Byte) :
    (cell + index).toUInt16.toNat = (cell.toNat + index.toNat) % 256 := by
  rw [UInt8.toNat_toUInt16, UInt8.toNat_add]

/-- Adding a widened byte is adding the signed one, up to whole rounds of memory. -/
theorem add_signExtend_emod (n : Nat) (b : Byte) :
    ((n + (signExtend b).toNat : Nat) : Int) % 65536 =
      (n + if b.toNat < 128 then (b.toNat : Int) else b.toNat - 256) % 65536 := by
  rw [toNat_signExtend]
  by_cases hsign : b.toNat < 128
  · rw [if_neg (by omega), if_pos hsign]
    omega
  · rw [if_pos (by omega), if_neg hsign]
    omega

/--
**Every mode resolves by its formula.**  Let `b₀` and `b₁` be the bytes behind the opcode and
`w` the word that they form.  The cursor ends behind the operand bytes that the mode has.
Zero-page modes name a cell below 256, whatever the index; the absolute pointer is read
across the end of its page and of memory like any word; a branch's distance goes from
behind its operand byte to where the signed byte says.
-/
theorem resolve_meets_formula (bus : σ) (mode : AddressingMode) (pc : Address) (x y : Byte) :
    let operand := (resolve bus mode pc x y).1
    let cursor := (resolve bus mode pc x y).2
    let b₀ := Bus.byteAt bus pc.toNat
    let b₁ := Bus.byteAt bus ((pc.toNat + 1) % 65536)
    let w := b₀ + 256 * b₁
    cursor.toNat = (pc.toNat + mode.operandLength) % 65536 ∧
    match mode with
    | .implied => operand = .none
    | .accumulator => operand = .accumulator
    | .immediate => operand.IsCell pc.toNat
    | .zeroPage => operand.IsCell b₀
    | .zeroPageX => operand.IsCell ((b₀ + x.toNat) % 256)
    | .zeroPageY => operand.IsCell ((b₀ + y.toNat) % 256)
    | .absolute => operand.IsCell w
    | .absoluteX => operand.IsCell ((w + x.toNat) % 65536)
    | .absoluteY => operand.IsCell ((w + y.toNat) % 65536)
    | .indirect => operand.IsCell (Bus.byteAt bus w + 256 * Bus.byteAt bus ((w + 1) % 65536))
    | .indirectX => operand.IsCell (Bus.zeroPageWordAt bus (b₀ + x.toNat))
    | .indirectY => operand.IsCell ((Bus.zeroPageWordAt bus b₀ + y.toNat) % 65536)
    | .relative => ∃ o, operand = .offset o ∧
        ((pc.toNat + 1 + o.toNat : Nat) : Int) % 65536 =
          (pc.toNat + 1 + if b₀ < 128 then (b₀ : Int) else b₀ - 256) % 65536 := by
  intro operand cursor b₀ b₁ w
  have hb₀ : b₀ = (Bus.read bus pc).toNat := Bus.byteAt_toNat bus pc
  have hw : (fetchWord bus pc).1.toNat = w := toNat_fetchWord bus pc
  refine ⟨?_, ?_⟩
  · have hlength := mode.operandLength_le
    show (resolve bus mode pc x y).2.toNat = _
    rw [resolve_cursor, UInt16.toNat_add, UInt16.toNat_ofNat']
    omega
  cases mode with
  | implied | accumulator => rfl
  | immediate => exact ⟨pc, rfl, rfl⟩
  | zeroPage =>
      refine ⟨_, rfl, ?_⟩
      rw [UInt8.toNat_toUInt16, hb₀]
  | zeroPageX | zeroPageY =>
      refine ⟨_, rfl, ?_⟩
      rw [toNat_cell_add, hb₀]
  | absolute => exact ⟨_, rfl, hw⟩
  | absoluteX | absoluteY =>
      refine ⟨_, rfl, ?_⟩
      rw [toNat_add_byte, ← hw]
      rfl
  | indirect =>
      refine ⟨_, rfl, ?_⟩
      rw [toNat_readWord, ← hw]
      rfl
  | indirectX =>
      refine ⟨_, rfl, ?_⟩
      rw [hb₀]
      exact toNat_readZeroPageWord bus (UInt8.toNat_add _ _)
  | indirectY =>
      have hpointer := toNat_readZeroPageWord bus
        (Nat.mod_eq_of_lt (Bus.read bus pc).toNat_lt).symm
      refine ⟨_, rfl, ?_⟩
      rw [toNat_add_byte, hb₀, ← hpointer]
  | relative =>
      refine ⟨_, rfl, ?_⟩
      rw [hb₀]
      exact add_signExtend_emod _ _

end

end Nmos6502
