/-
The processor status register.

Eight one-bit flags, kept apart here because every instruction treats them one at a
time; the byte they form matters only where the register meets the outside, when it
is pushed, pulled, set by the host or shown.  `ofByte` and `toByte` are inverse to
each other, so nothing is lost in either direction.

Two of the bits are no flip-flops.  Bit 5 always reads as one, and bit 4 exists only
in a pushed copy, where it tells a program's own `BRK` from an interrupt; `ofPulled`
is what the processor makes of a byte that comes back from the stack.
-/
import Nmos6502.Word

namespace Nmos6502

/-- The bits of the status register, from bit 0 upward. -/
inductive Flag
  /-- Carry out of an addition or a shift, and no borrow out of a subtraction. -/
  | carry
  /-- The last result was zero. -/
  | zero
  /-- Maskable interrupts are ignored. -/
  | interruptDisable
  /-- Decimal mode, which is stored but never consulted. -/
  | decimal
  /-- Set in the copy that `BRK` and `PHP` push. -/
  | brk
  /-- No latch behind it: reads as one. -/
  | unused
  /-- The last signed result did not fit into a byte. -/
  | overflow
  /-- Bit 7 of the last result. -/
  | negative
  deriving DecidableEq, Repr

namespace Flag

/-- All flags in the order of their bits. -/
def all : List Flag :=
  [carry, zero, interruptDisable, decimal, brk, unused, overflow, negative]

/-- The byte in which only this flag's bit is set. -/
def mask : Flag → Byte
  | carry => 0x01
  | zero => 0x02
  | interruptDisable => 0x04
  | decimal => 0x08
  | brk => 0x10
  | unused => 0x20
  | overflow => 0x40
  | negative => 0x80

theorem mem_all (f : Flag) : f ∈ all := by
  cases f <;> decide

end Flag

/-- The eight status bits. -/
structure Status where
  carry : Bool
  zero : Bool
  interruptDisable : Bool
  decimal : Bool
  brk : Bool
  unused : Bool
  overflow : Bool
  negative : Bool
  deriving DecidableEq, Repr

namespace Status

/-- No bit set. -/
def none : Status := ⟨false, false, false, false, false, false, false, false⟩

/-- The status after power-on and after reset: only the bit that always reads as one. -/
def powerOn : Status := { none with unused := true }

instance : Inhabited Status := ⟨powerOn⟩

/-- One bit of the register. -/
def get (s : Status) : Flag → Bool
  | .carry => s.carry
  | .zero => s.zero
  | .interruptDisable => s.interruptDisable
  | .decimal => s.decimal
  | .brk => s.brk
  | .unused => s.unused
  | .overflow => s.overflow
  | .negative => s.negative

/-- The register after one bit has been given a value. -/
def set (s : Status) (f : Flag) (on : Bool) : Status :=
  match f with
  | .carry => { s with carry := on }
  | .zero => { s with zero := on }
  | .interruptDisable => { s with interruptDisable := on }
  | .decimal => { s with decimal := on }
  | .brk => { s with brk := on }
  | .unused => { s with unused := on }
  | .overflow => { s with overflow := on }
  | .negative => { s with negative := on }

/-- The register whose bits are those of a byte. -/
def ofByte (b : Byte) : Status where
  carry := b &&& Flag.carry.mask != 0
  zero := b &&& Flag.zero.mask != 0
  interruptDisable := b &&& Flag.interruptDisable.mask != 0
  decimal := b &&& Flag.decimal.mask != 0
  brk := b &&& Flag.brk.mask != 0
  unused := b &&& Flag.unused.mask != 0
  overflow := b &&& Flag.overflow.mask != 0
  negative := b &&& Flag.negative.mask != 0

/-- The byte whose bits are those of the register. -/
def toByte (s : Status) : Byte :=
  weight s.carry .carry + weight s.zero .zero +
    weight s.interruptDisable .interruptDisable + weight s.decimal .decimal +
    weight s.brk .brk + weight s.unused .unused +
    weight s.overflow .overflow + weight s.negative .negative
where
  /-- What a bit contributes to the byte. -/
  weight (on : Bool) (f : Flag) : Byte := if on then f.mask else 0

/-- Every bit that is set in `mask` is set in `s`. -/
def contains (s mask : Status) : Bool :=
  Flag.all.all fun f => !mask.get f || s.get f

/-- The register after every bit that is set in `mask` has been given the value `on`. -/
def assign (s mask : Status) (on : Bool) : Status :=
  Flag.all.foldl (fun r f => if mask.get f then r.set f on else r) s

/-- The register with the bit that always reads as one put back. -/
def forceUnused (s : Status) : Status := { s with unused := true }

/-- Zero and negative as a result leaves them; the other bits stay. -/
def setZN (s : Status) (result : Byte) : Status :=
  { s with zero := result == 0, negative := signBit result }

/--
What a byte pulled from the stack does to the register: bit 4 has no flip-flop to go
to, and bit 5 reads as one whatever was pulled.
-/
def ofPulled (b : Byte) : Status := { ofByte b with brk := false, unused := true }

/-- The copy that `PHP` and `BRK` push, with bits 4 and 5 set. -/
def pushedByProgram (s : Status) : Byte := toByte { s with brk := true, unused := true }

/-! ### The register and its byte determine each other -/

theorem ofByte_toByte (s : Status) : ofByte s.toByte = s := by
  have h : ∀ c z i d b u v n : Bool,
      ofByte (toByte ⟨c, z, i, d, b, u, v, n⟩) = ⟨c, z, i, d, b, u, v, n⟩ := by
    decide +kernel
  exact h s.carry s.zero s.interruptDisable s.decimal s.brk s.unused s.overflow s.negative

theorem toByte_ofByte (b : Byte) : (ofByte b).toByte = b := by
  revert b
  apply forall_byte
  decide +kernel

/-! ### What the stack does to the byte -/

/-- A status that comes back from the stack loses bit 4 and gains bit 5. -/
theorem ofPulled_toByte (s : Status) :
    ofPulled s.toByte = { s with brk := false, unused := true } := by
  rw [ofPulled, ofByte_toByte]

theorem toByte_ofPulled (b : Byte) : (ofPulled b).toByte = b &&& 0xEF ||| 0x20 := by
  revert b
  apply forall_byte
  decide +kernel

theorem pushedByProgram_eq (s : Status) : s.pushedByProgram = s.toByte ||| 0x30 := by
  have h : ∀ c z i d b u v n : Bool,
      pushedByProgram ⟨c, z, i, d, b, u, v, n⟩ = toByte ⟨c, z, i, d, b, u, v, n⟩ ||| 0x30 := by
    decide +kernel
  exact h s.carry s.zero s.interruptDisable s.decimal s.brk s.unused s.overflow s.negative

/-- Masking interrupts sets bit 2. -/
theorem toByte_interruptDisable (s : Status) :
    toByte { s with interruptDisable := true } = s.toByte ||| 0x04 := by
  have h : ∀ c z i d b u v n : Bool,
      toByte ⟨c, z, true, d, b, u, v, n⟩ = toByte ⟨c, z, i, d, b, u, v, n⟩ ||| 0x04 := by
    decide +kernel
  exact h s.carry s.zero s.interruptDisable s.decimal s.brk s.unused s.overflow s.negative

/-- What `BRK` pushes, which masks interrupts before it takes the copy. -/
theorem pushedByProgram_interruptDisable (s : Status) :
    { s with interruptDisable := true }.pushedByProgram = s.toByte ||| 0x34 := by
  rw [pushedByProgram_eq, toByte_interruptDisable, UInt8.or_assoc]
  rfl

/-! ### Reading a bit after setting one -/

@[simp] theorem get_set_self (s : Status) (f : Flag) (on : Bool) : (s.set f on).get f = on := by
  cases f <;> rfl

theorem get_set_ne (s : Status) {f g : Flag} (h : f ≠ g) (on : Bool) :
    (s.set f on).get g = s.get g := by
  cases f <;> cases g <;> simp_all [get, set]

/-- Two registers with the same bits are the same register. -/
theorem ext_get {s t : Status} (h : ∀ f, s.get f = t.get f) : s = t := by
  obtain ⟨c, z, i, d, b, u, v, n⟩ := s
  obtain ⟨c', z', i', d', b', u', v', n'⟩ := t
  have h1 := h .carry
  have h2 := h .zero
  have h3 := h .interruptDisable
  have h4 := h .decimal
  have h5 := h .brk
  have h6 := h .unused
  have h7 := h .overflow
  have h8 := h .negative
  simp only [get] at h1 h2 h3 h4 h5 h6 h7 h8
  subst h1 h2 h3 h4 h5 h6 h7 h8
  rfl

/-- Assigning through the flags of a list changes the masked ones among them and no others. -/
private theorem get_foldl_assign (mask : Status) (on : Bool) (f : Flag) (l : List Flag) :
    ∀ s : Status,
      (l.foldl (fun r g => if mask.get g then r.set g on else r) s).get f =
        if f ∈ l ∧ mask.get f = true then on else s.get f := by
  induction l with
  | nil => intro s; simp
  | cons g l ih =>
      intro s
      rw [List.foldl_cons, ih]
      by_cases hgf : g = f
      · subst hgf
        cases hm : mask.get g <;> simp
      · have hfg : ¬ f = g := fun h => hgf h.symm
        cases hm : mask.get g <;> simp [hfg, get_set_ne s hgf]

/-- Assigning through a mask changes the masked bits and no others. -/
theorem get_assign (s mask : Status) (on : Bool) (f : Flag) :
    (s.assign mask on).get f = if mask.get f then on else s.get f := by
  rw [assign, get_foldl_assign]
  simp [Flag.mem_all]

/-- A register contains a mask exactly when it has every bit that the mask has. -/
theorem contains_iff (s mask : Status) :
    s.contains mask = true ↔ ∀ f, mask.get f = true → s.get f = true := by
  simp only [contains, List.all_eq_true, Bool.or_eq_true, Bool.not_eq_true']
  constructor
  · intro h f hf
    rcases h f (Flag.mem_all f) with hm | hs
    · simp [hm] at hf
    · exact hs
  · intro h f _
    cases hm : mask.get f with
    | false => exact Or.inl rfl
    | true => exact Or.inr (h f hm)

end Status

end Nmos6502
