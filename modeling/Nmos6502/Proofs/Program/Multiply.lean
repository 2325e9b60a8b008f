/-
Multiplication by shifting and adding: eight times `LSR $11`, which takes the lowest bit of
the multiplier, `CLC` and `ADC $10` if the bit is set, and `ASL $10`, which doubles the
multiplicand; then `STA $12`.

A round leaves sum + multiplicand × multiplier as it was, modulo 256, `shiftAdd_mod`.  That
is all that a proof of the loop needs of the sum: at the start it is zero, and after eight
rounds the multiplier is.  The other two fields of the invariant, `Multiplying`, say where
multiplicand and multiplier have got to, and it is the multiplier that tells how long a
round takes: the bit that falls out in round `i` is bit `i` of the multiplier that was
there, and it costs two steps if it is set.
-/
import Mathlib.Algebra.Ring.Nat
import Nmos6502.Proofs.Footprint
import Nmos6502.Proofs.Program.Course
import Nmos6502.Proofs.Reads

namespace Nmos6502

/-! ### A round in numbers -/

/-- **Shifting and adding keeps the sum and the product still to come**, modulo 256. -/
theorem shiftAdd_mod (sum p q : Byte) :
    ((if (shiftRight q false).carry then (addWithCarry sum p false).value else sum).toNat +
        (shiftLeft p false).value.toNat * (shiftRight q false).value.toNat) % 256 =
      (sum.toNat + p.toNat * q.toNat) % 256 := by
  have hadd := addWithCarry_exact sum p false
  have hdouble := shiftLeft_exact p false
  have hhalve := shiftRight_exact q false
  rw [Bool.toNat_false, Nat.add_zero] at hadd hdouble
  rw [Bool.toNat_false, Nat.mul_zero, Nat.add_zero] at hhalve
  -- What is lost in doubling is a multiple of 256, whatever it is multiplied by.
  have hscaled := congrArg (· * (shiftRight q false).value.toNat) hdouble
  simp only [Nat.add_mul, Nat.mul_assoc] at hscaled
  rw [← hhalve, Nat.mul_add, Nat.mul_left_comm]
  cases hbit : (shiftRight q false).carry with
  | false =>
      rw [if_neg (by decide), Bool.toNat_false, Nat.mul_zero]
      omega
  | true =>
      rw [if_pos rfl, Bool.toNat_true, Nat.mul_one]
      omega

/-- Halving a quotient by a power of two gives the next one, and the bit between the two. -/
theorem shiftRight_quotient {q v : Byte} {i : Nat} (hv : v.toNat = q.toNat / 2 ^ i) :
    (shiftRight v false).value.toNat = q.toNat / 2 ^ (i + 1) ∧
      (shiftRight v false).carry = q.toNat.testBit i := by
  have hhalve := shiftRight_exact v false
  rw [Bool.toNat_false, Nat.mul_zero, Nat.add_zero] at hhalve
  have hcarry := (shiftRight v false).carry.toNat_le
  refine ⟨?_, ?_⟩
  · rw [Nat.pow_succ, ← Nat.div_div_eq_div_mul, ← hv]
    omega
  · rw [Nat.testBit_eq_decide_div_mod_eq, ← hv]
    rfl

/-! ### The program -/

/-- The program that multiplies the bytes in `$10` and `$11`. -/
def multiplication : List Byte :=
  [0xA9, 0x00, 0xA2, 0x08, 0x46, 0x11, 0x90, 0x03, 0x18, 0x65, 0x10, 0x06, 0x10, 0xCA, 0xD0, 0xF4,
   0x85, 0x12]

/-- The program is in its place. -/
def HoldsMultiplication (bus : Memory) : Prop := Bus.readBytes bus 0x0600 18 = multiplication

/-- A byte of the program, where it lies. -/
theorem HoldsMultiplication.get {bus : Memory} (h : HoldsMultiplication bus) (i : Nat) {b : Byte}
    (hi : multiplication[i]? = some b) : bus.get (0x0600 + UInt16.ofNat i) = b :=
  Bus.read_of_readBytes h i hi

/-- A byte that lands elsewhere leaves the program. -/
theorem HoldsMultiplication.set {bus : Memory} (h : HoldsMultiplication bus) {a : Address}
    (ha : a ∉ cellsFrom 0x0600 18) (v : Byte) : HoldsMultiplication (bus.set a v) := by
  refine (Bus.readBytes_congr_of_agree fun cell hcell => ?_).trans h
  refine Memory.get_set_ne _ ?_ _
  rintro rfl
  exact ha hcell

/-- The cell of page zero that the byte behind the opcode names. -/
theorem resolve_zeroPage {σ : Type} [Bus σ] {bus : σ} {cursor cell : Address} {p : Byte}
    (hp : Bus.read bus cursor = p) (hcell : p.toUInt16 = cell) (x y : Byte) :
    resolve bus .zeroPage cursor x y = (.address cell, cursor + 1) := by
  rw [← hcell, ← hp]
  rfl

/-- The flags that a sum decides; a shift and a load decide some of them. -/
def Flag.arithmetic : List Flag := [.carry, .zero, .overflow, .negative]

/-- A register in which the other four bits are the same differs in no flag but these. -/
theorem Status.get_of_notMem_arithmetic {s t : Status} {f : Flag} (hf : f ∉ Flag.arithmetic)
    (hinterrupt : t.interruptDisable = s.interruptDisable) (hdecimal : t.decimal = s.decimal)
    (hbrk : t.brk = s.brk) (hunused : t.unused = s.unused) : t.get f = s.get f := by
  cases f with
  | carry | zero | overflow | negative => exact absurd (by decide) hf
  | interruptDisable => exact hinterrupt
  | decimal => exact hdecimal
  | brk => exact hbrk
  | unused => exact hunused

namespace Machine

/-- The registers and flags that multiplying leaves alone. -/
structure KeepsRest (m m' : Machine Memory) : Prop where
  y : m'.y = m.y
  sp : m'.sp = m.sp
  flags : ∀ f ∉ Flag.arithmetic, m'.status.get f = m.status.get f

theorem KeepsRest.refl (m : Machine Memory) : m.KeepsRest m := ⟨rfl, rfl, fun _ _ => rfl⟩

theorem KeepsRest.trans {m m' m'' : Machine Memory} (h : m.KeepsRest m')
    (h' : m'.KeepsRest m'') : m.KeepsRest m'' where
  y := h'.y.trans h.y
  sp := h'.sp.trans h.sp
  flags f hf := (h'.flags f hf).trans (h.flags f hf)

section

variable {m : Machine Memory}

/-- `LDA #0` and `LDX #8`. -/
theorem course_prepare (h : HoldsMultiplication m.bus) (hpc : m.pc = 0x0600) :
    ∃ m', Course 0x0612 2 m m' ∧ m'.pc = 0x0604 ∧ m'.a = 0 ∧ m'.x = 8 ∧ m'.bus = m.bus ∧
      m.KeepsRest m' := by
  have hlda : Opcode.lookup 0xA9 = some ⟨.lda, .immediate, 2⟩ := by decide +kernel
  have hldx : Opcode.lookup 0xA2 = some ⟨.ldx, .immediate, 2⟩ := by decide +kernel
  let cleared : Machine Memory := { m with a := 0, status := m.status.setZN 0, pc := 0x0602 }
  let last : Machine Memory :=
    { cleared with x := 8, status := cleared.status.setZN 8, pc := 0x0604 }
  have hclear : m.step = (.ok 2, cleared) :=
    step_of_consume hlda hpc (h.get 0 rfl) rfl (h.get 1 rfl) fun _ _ => rfl
  have hcount : cleared.step = (.ok 2, last) :=
    step_of_consume (m := cleared) hldx rfl (h.get 2 rfl) rfl (h.get 3 rfl) fun _ _ => rfl
  have hcourse : Course 0x0612 2 m last :=
    .head (by rw [hpc]; decide) hclear <|
      .head (show (0x0602 : Address) ≠ 0x0612 by decide) hcount <| .refl last
  refine ⟨last, hcourse, rfl, rfl, rfl, rfl, rfl, rfl, ?_⟩
  exact fun f hf => Status.get_of_notMem_arithmetic hf rfl rfl rfl rfl

/-- `LSR $11` and `BCC`, which skips the addition unless a bit has fallen out. -/
theorem course_halve (h : HoldsMultiplication m.bus) (hpc : m.pc = 0x0604) {s : Shifted}
    (hs : shiftRight (m.bus.get 0x11) false = s) :
    ∃ m', Course 0x0612 2 m m' ∧ m'.pc = (if s.carry then 0x0608 else 0x060B) ∧ m'.a = m.a ∧
      m'.x = m.x ∧ m'.bus = m.bus.set 0x11 s.value ∧ m.KeepsRest m' := by
  subst hs
  have hlsr : Opcode.lookup 0x46 = some ⟨.lsr, .zeroPage, 5⟩ := by decide +kernel
  have hbcc : Opcode.lookup 0x90 = some ⟨.bcc, .relative, 2⟩ := by decide +kernel
  let s := shiftRight (m.bus.get 0x11) false
  let halved : Machine Memory :=
    { m with
      bus := m.bus.set 0x11 s.value
      status := { m.status.setZN s.value with carry := s.carry }
      pc := 0x0606 }
  let last : Machine Memory := { halved with pc := if s.carry then 0x0608 else 0x060B }
  have hholds : HoldsMultiplication halved.bus := h.set (by decide) _
  have hoperand : resolve m.bus .zeroPage (0x0604 + 1) m.x m.y = (.address 0x11, 0x0606) :=
    resolve_zeroPage (h.get 5 rfl) (by decide) m.x m.y
  have hhalve : m.step = (.ok 5, halved) := step_of_resolve hlsr hpc (h.get 4 rfl) hoperand
  have htarget : (0x0606 : Address) + 1 + 1 +
      (if halved.status.get .carry = false then signExtend 0x03 else 0) = last.pc := by
    show (0x0606 : Address) + 1 + 1 + (if s.carry = false then signExtend 0x03 else 0) =
      if s.carry then 0x0608 else 0x060B
    cases s.carry <;> decide
  have hbranch : halved.step = (.ok 2, last) := by
    rw [step_of_branch (m := halved) hbcc rfl rfl (hholds.get 6 rfl) (hholds.get 7 rfl)]
    exact congrArg (fun a => (Except.ok (2 : Byte), { halved with pc := a })) htarget
  have hcourse : Course 0x0612 2 m last :=
    .head (by rw [hpc]; decide) hhalve <|
      .head (show (0x0606 : Address) ≠ 0x0612 by decide) hbranch <| .refl last
  refine ⟨last, hcourse, rfl, rfl, rfl, rfl, rfl, rfl, ?_⟩
  exact fun f hf => Status.get_of_notMem_arithmetic hf rfl rfl rfl rfl

/-- `CLC` and `ADC $10`. -/
theorem course_add (h : HoldsMultiplication m.bus) (hpc : m.pc = 0x0608) :
    ∃ m', Course 0x0612 2 m m' ∧ m'.pc = 0x060B ∧
      m'.a = (addWithCarry m.a (m.bus.get 0x10) false).value ∧ m'.x = m.x ∧ m'.bus = m.bus ∧
      m.KeepsRest m' := by
  have hclc : Opcode.lookup 0x18 = some ⟨.clc, .implied, 2⟩ := by decide +kernel
  have hadc : Opcode.lookup 0x65 = some ⟨.adc, .zeroPage, 3⟩ := by decide +kernel
  let s := addWithCarry m.a (m.bus.get 0x10) false
  let cleared : Machine Memory := { m with status := m.status.set .carry false, pc := 0x0609 }
  let last : Machine Memory :=
    { cleared with
      a := s.value
      status := { cleared.status.setZN s.value with carry := s.carry, overflow := s.overflow }
      pc := 0x060B }
  have hclear : m.step = (.ok 2, cleared) := step_of_resolve hclc hpc (h.get 8 rfl) rfl
  have hoperand : resolve m.bus .zeroPage (0x0609 + 1) m.x m.y = (.address 0x10, 0x060B) :=
    resolve_zeroPage (h.get 10 rfl) (by decide) m.x m.y
  have hadd : cleared.step = (.ok 3, last) :=
    step_of_consume (m := cleared) hadc rfl (h.get 9 rfl) hoperand rfl fun _ _ => rfl
  have hcourse : Course 0x0612 2 m last :=
    .head (by rw [hpc]; decide) hclear <|
      .head (show (0x0609 : Address) ≠ 0x0612 by decide) hadd <| .refl last
  refine ⟨last, hcourse, rfl, rfl, rfl, rfl, rfl, rfl, ?_⟩
  exact fun f hf => Status.get_of_notMem_arithmetic hf rfl rfl rfl rfl

/-- What comes before `ASL`, by way of the addition or past it. -/
theorem course_addIf (h : HoldsMultiplication m.bus) {carry : Bool}
    (hpc : m.pc = if carry then 0x0608 else 0x060B) :
    ∃ m', Course 0x0612 (2 * carry.toNat) m m' ∧ m'.pc = 0x060B ∧
      m'.a = (if carry then (addWithCarry m.a (m.bus.get 0x10) false).value else m.a) ∧
      m'.x = m.x ∧ m'.bus = m.bus ∧ m.KeepsRest m' := by
  cases carry with
  | false => exact ⟨m, .refl m, hpc, rfl, rfl, rfl, .refl m⟩
  | true => exact course_add h hpc

/-- `ASL $10`, `DEX` and `BNE`, which goes back unless `X` has come down to zero. -/
theorem course_double (h : HoldsMultiplication m.bus) (hpc : m.pc = 0x060B) :
    ∃ m', Course 0x0612 3 m m' ∧ m'.pc = (if m.x - 1 = 0 then 0x0610 else 0x0604) ∧
      m'.a = m.a ∧ m'.x = m.x - 1 ∧
      m'.bus = m.bus.set 0x10 (shiftLeft (m.bus.get 0x10) false).value ∧ m.KeepsRest m' := by
  have hasl : Opcode.lookup 0x06 = some ⟨.asl, .zeroPage, 5⟩ := by decide +kernel
  have hdex : Opcode.lookup 0xCA = some ⟨.dex, .implied, 2⟩ := by decide +kernel
  have hbne : Opcode.lookup 0xD0 = some ⟨.bne, .relative, 2⟩ := by decide +kernel
  let s := shiftLeft (m.bus.get 0x10) false
  let doubled : Machine Memory :=
    { m with
      bus := m.bus.set 0x10 s.value
      status := { m.status.setZN s.value with carry := s.carry }
      pc := 0x060D }
  let counted : Machine Memory :=
    { doubled with x := m.x - 1, status := doubled.status.setZN (m.x - 1), pc := 0x060E }
  let last : Machine Memory :=
    { counted with pc := if m.x - 1 = 0 then 0x0610 else 0x0604 }
  have hholds : HoldsMultiplication doubled.bus := h.set (by decide) _
  have hoperand : resolve m.bus .zeroPage (0x060B + 1) m.x m.y = (.address 0x10, 0x060D) :=
    resolve_zeroPage (h.get 12 rfl) (by decide) m.x m.y
  have hdouble : m.step = (.ok 5, doubled) := step_of_resolve hasl hpc (h.get 11 rfl) hoperand
  have hcount : doubled.step = (.ok 2, counted) := by
    rw [step_of_resolve (m := doubled) hdex rfl (hholds.get 13 rfl) rfl]
    have hdown : m.x + -1 = m.x - 1 := (UInt8.sub_eq_add_neg m.x 1).symm
    show (_, { doubled with pc := _ }.adjustRegister .x (-1)) = _
    simp only [adjustRegister, setResult, withZN, set, get, counted, doubled, hdown]
    rfl
  -- The branch goes twelve bytes back from behind itself.
  have htarget : (0x060E : Address) + 1 + 1 +
      (if counted.status.get .zero = false then signExtend 0xF4 else 0) = last.pc := by
    show (0x060E : Address) + 1 + 1 + (if (m.x - 1 == 0) = false then signExtend 0xF4 else 0) =
      if m.x - 1 = 0 then 0x0610 else 0x0604
    by_cases hzero : m.x - 1 = 0
    · simp only [hzero, beq_self_eq_true, if_true]
      decide
    · simp only [beq_eq_false_iff_ne.mpr hzero, if_true, if_neg hzero]
      decide
  have hbranch : counted.step = (.ok 2, last) := by
    rw [step_of_branch (m := counted) hbne rfl rfl (hholds.get 14 rfl) (hholds.get 15 rfl)]
    exact congrArg (fun a => (Except.ok (2 : Byte), { counted with pc := a })) htarget
  have hcourse : Course 0x0612 3 m last :=
    .head (by rw [hpc]; decide) hdouble <|
      .head (show (0x060D : Address) ≠ 0x0612 by decide) hcount <|
      .head (show (0x060E : Address) ≠ 0x0612 by decide) hbranch <| .refl last
  refine ⟨last, hcourse, rfl, rfl, rfl, rfl, rfl, rfl, ?_⟩
  exact fun f hf => Status.get_of_notMem_arithmetic hf rfl rfl rfl rfl

/-- A whole round, which takes two steps more if it adds. -/
theorem course_round (h : HoldsMultiplication m.bus) (hpc : m.pc = 0x0604) {half : Shifted}
    (hhalf : shiftRight (m.bus.get 0x11) false = half) :
    ∃ m', Course 0x0612 (5 + 2 * half.carry.toNat) m m' ∧
      m'.pc = (if m.x - 1 = 0 then 0x0610 else 0x0604) ∧
      m'.a = (if half.carry then (addWithCarry m.a (m.bus.get 0x10) false).value else m.a) ∧
      m'.x = m.x - 1 ∧
      m'.bus = (m.bus.set 0x11 half.value).set 0x10 (shiftLeft (m.bus.get 0x10) false).value ∧
      m.KeepsRest m' := by
  obtain ⟨halved, hhalve, hpc₁, ha₁, hx₁, hbus₁, hrest₁⟩ := course_halve h hpc hhalf
  have hholds₁ : HoldsMultiplication halved.bus := hbus₁ ▸ h.set (by decide) _
  obtain ⟨added, hadd, hpc₂, ha₂, hx₂, hbus₂, hrest₂⟩ := course_addIf hholds₁ hpc₁
  have hholds₂ : HoldsMultiplication added.bus := hbus₂ ▸ hholds₁
  obtain ⟨m', hdouble, hpc₃, ha₃, hx₃, hbus₃, hrest₃⟩ := course_double hholds₂ hpc₂
  have hsame : halved.bus.get 0x10 = m.bus.get 0x10 := by
    rw [hbus₁, Memory.get_set_ne _ (by decide)]
  rw [hx₂, hx₁] at hpc₃ hx₃
  rw [ha₂, hsame, ha₁] at ha₃
  rw [hbus₂, hsame, hbus₁] at hbus₃
  refine ⟨m', ?_, hpc₃, ha₃, hx₃, hbus₃, hrest₁.trans (hrest₂.trans hrest₃)⟩
  have hcourse := hhalve.trans (hadd.trans hdouble)
  rwa [show 2 + (2 * half.carry.toNat + 3) = 5 + 2 * half.carry.toNat by omega] at hcourse

/-- `STA $12`. -/
theorem course_store (h : HoldsMultiplication m.bus) (hpc : m.pc = 0x0610) :
    ∃ m', Course 0x0612 1 m m' ∧ m'.pc = 0x0612 ∧ m'.a = m.a ∧ m'.x = m.x ∧
      m'.bus = m.bus.set 0x12 m.a ∧ m.KeepsRest m' := by
  have hsta : Opcode.lookup 0x85 = some ⟨.sta, .zeroPage, 3⟩ := by decide +kernel
  let last : Machine Memory := { m with bus := m.bus.set 0x12 m.a, pc := 0x0612 }
  have hoperand : resolve m.bus .zeroPage (0x0610 + 1) m.x m.y = (.address 0x12, 0x0612) :=
    resolve_zeroPage (h.get 17 rfl) (by decide) m.x m.y
  have hstore : m.step = (.ok 3, last) := step_of_resolve hsta hpc (h.get 16 rfl) hoperand
  refine ⟨last, .head (by rw [hpc]; decide) hstore (.refl last), rfl, rfl, rfl, rfl, rfl, rfl, ?_⟩
  exact fun _ _ => rfl

/-! ### The loop -/

/--
The machine before round `i`, or behind the last one.  Multiplicand and multiplier have been
shifted so many times, sum and product still to come are together what they were, and
nothing else has changed but the counter.
-/
structure Multiplying (start : Machine Memory) (p q : Byte) (i : Nat) (m : Machine Memory) :
    Prop where
  holds : HoldsMultiplication m.bus
  pc : m.pc = if i = 8 then 0x0610 else 0x0604
  x : m.x.toNat = 8 - i
  multiplicand : (m.bus.get 0x10).toNat = p.toNat * 2 ^ i % 256
  multiplier : (m.bus.get 0x11).toNat = q.toNat / 2 ^ i
  sum : (m.a.toNat + (m.bus.get 0x10).toNat * (m.bus.get 0x11).toNat) % 256 =
    p.toNat * q.toNat % 256
  others : ∀ a ∉ [(0x10 : Address), 0x11], m.bus.get a = start.bus.get a
  rest : start.KeepsRest m

/-- Doubling the multiplicand once more, cut to a byte. -/
theorem shiftLeft_power {p v : Byte} {i : Nat} (hv : v.toNat = p.toNat * 2 ^ i % 256) :
    (shiftLeft v false).value.toNat = p.toNat * 2 ^ (i + 1) % 256 := by
  have hdouble := shiftLeft_exact v false
  have hlt := (shiftLeft v false).value.toNat_lt
  rw [Bool.toNat_false, Nat.add_zero] at hdouble
  rw [Nat.pow_succ, ← Nat.mul_assoc]
  omega

/-- **A round carries the invariant on**, and takes two steps more where a bit is set. -/
theorem Multiplying.round {start : Machine Memory} {p q : Byte} {i : Nat}
    (h : Multiplying start p q i m) (hi : i < 8) :
    ∃ m', Course 0x0612 (5 + 2 * (q.toNat.testBit i).toNat) m m' ∧
      Multiplying start p q (i + 1) m' := by
  have hpc := h.pc
  rw [if_neg (Nat.ne_of_lt hi)] at hpc
  obtain ⟨hquotient, hbit⟩ := shiftRight_quotient h.multiplier
  obtain ⟨m', hcourse, hpc', ha', hx', hbus', hrest'⟩ := course_round h.holds hpc rfl
  rw [hbit] at hcourse
  have hp : m'.bus.get 0x10 = (shiftLeft (m.bus.get 0x10) false).value := by
    rw [hbus', Memory.get_set_self]
  have hq : m'.bus.get 0x11 = (shiftRight (m.bus.get 0x11) false).value := by
    rw [hbus', Memory.get_set_ne _ (by decide), Memory.get_set_self]
  have hcounter : m'.x.toNat = 8 - (i + 1) := by
    have hx := h.x
    have hone : 1 ≤ m.x := UInt8.le_iff_toNat_le.mpr (show 1 ≤ m.x.toNat by omega)
    rw [hx', UInt8.toNat_sub_of_le _ _ hone, hx]
    rfl
  have hlast : m'.x = 0 ↔ i + 1 = 8 := by
    rw [← UInt8.toNat_inj, hcounter]
    show 8 - (i + 1) = 0 ↔ i + 1 = 8
    omega
  refine ⟨m', hcourse, ?_, ?_, hcounter, ?_, ?_, ?_, ?_, h.rest.trans hrest'⟩
  · rw [hbus']
    exact (h.holds.set (by decide) _).set (by decide) _
  · rw [hpc', ← hx']
    simp only [hlast]
  · rw [hp]
    exact shiftLeft_power h.multiplicand
  · rw [hq]
    exact hquotient
  · rw [hp, hq, ha', shiftAdd_mod]
    exact h.sum
  · intro a ha
    have hnot : ∀ b ∈ [(0x10 : Address), 0x11], b ≠ a := fun b hb hba => ha (hba ▸ hb)
    rw [hbus', Memory.get_set_ne _ (hnot _ (by decide)), Memory.get_set_ne _ (hnot _ (by decide))]
    exact h.others a ha

/-- After the last round nothing is left of the factors, and the sum is all of the product. -/
theorem Multiplying.finished {start : Machine Memory} {p q : Byte}
    (h : Multiplying start p q 8 m) :
    m.a.toNat = p.toNat * q.toNat % 256 ∧ m.x = 0 ∧ m.bus.get 0x10 = 0 ∧ m.bus.get 0x11 = 0 := by
  have hq := q.toNat_lt
  have hmultiplier := h.multiplier
  rw [Nat.div_eq_of_lt hq] at hmultiplier
  have hmultiplicand := h.multiplicand
  rw [show (2 : Nat) ^ 8 = 256 from rfl, Nat.mul_mod_left] at hmultiplicand
  have hsum := h.sum
  rw [hmultiplier, Nat.mul_zero, Nat.add_zero, Nat.mod_eq_of_lt m.a.toNat_lt] at hsum
  exact ⟨hsum, UInt8.toNat_inj.mp h.x, UInt8.toNat_inj.mp hmultiplicand,
    UInt8.toNat_inj.mp hmultiplier⟩

/-- How many of the lowest `n` bits of a byte are set. -/
def setBits (q : Byte) (n : Nat) : Nat := (List.range n).countP fun i => q.toNat.testBit i

theorem setBits_succ (q : Byte) (n : Nat) :
    setBits q (n + 1) = setBits q n + (q.toNat.testBit n).toNat := by
  rw [setBits, List.range_succ, List.countP_append, List.countP_singleton]
  cases q.toNat.testBit n <;> rfl

/-- **The program multiplies**, in 43 steps and two for each bit of the multiplier. -/
theorem course_multiplication (h : HoldsMultiplication m.bus) (hpc : m.pc = 0x0600) :
    ∃ m' last, Course 0x0612 (43 + 2 * setBits (m.bus.get 0x11) 8) m last ∧
      Multiplying m (m.bus.get 0x10) (m.bus.get 0x11) 8 m' ∧ last.pc = 0x0612 ∧
      last.a = m'.a ∧ last.x = m'.x ∧ last.bus = m'.bus.set 0x12 m'.a ∧ m.KeepsRest last := by
  have hstart : ∃ m', Course 0x0612 2 m m' ∧
      Multiplying m (m.bus.get 0x10) (m.bus.get 0x11) 0 m' := by
    obtain ⟨m', hcourse, hpc', ha', hx', hbus', hrest'⟩ := course_prepare h hpc
    have hp := (m.bus.get 0x10).toNat_lt
    refine ⟨m', hcourse, hbus' ▸ h, hpc', by rw [hx']; rfl, ?_, ?_, ?_, ?_, hrest'⟩
    · rw [hbus']
      omega
    · rw [hbus', Nat.pow_zero, Nat.div_one]
    · rw [hbus', ha']
      simp
    · intro a _
      rw [hbus']
  obtain ⟨m', hcourse, hend⟩ := Course.rounds
    (fun i => 2 + 5 * i + 2 * setBits (m.bus.get 0x11) i) hstart fun i hi m' hinv => by
      obtain ⟨m'', hround, hinv'⟩ := hinv.round hi
      refine ⟨_, m'', ?_, hround, hinv'⟩
      rw [setBits_succ]
      omega
  obtain ⟨last, hlast, hpc', ha', hx', hbus', hrest'⟩ := course_store hend.holds hend.pc
  refine ⟨m', last, ?_, hend, hpc', ha', hx', hbus', hend.rest.trans hrest'⟩
  have hall := hcourse.trans hlast
  rwa [show 2 + 5 * 8 + 2 * setBits (m.bus.get 0x11) 8 + 1 =
    43 + 2 * setBits (m.bus.get 0x11) 8 by omega] at hall

end

end Machine

namespace Cpu

/--
**The multiplication multiplies.**  Let a ready processor be at `$0600`, where the program
lies, with any bytes in `$10` and `$11`, whatever the rest of memory, the registers and the
flags hold.  It is behind the program after 43 steps and two for each set bit of the
multiplier, none of which fails, and not before.  Then `$12` and the accumulator hold the
product, modulo 256; the decimal flag has made no difference.  The factors and `X` have
come down to zero, and the rest of memory, `Y`, the stack pointer and the flags that are
not decided by arithmetic are as they were.
-/
theorem multiplies {c : Cpu Memory} {p q : Byte} (hready : c.ready = true)
    (hpc : c.machine.pc = 0x0600)
    (hcode : Bus.readBytes c.machine.bus 0x0600 18 =
      [0xA9, 0x00, 0xA2, 0x08, 0x46, 0x11, 0x90, 0x03, 0x18, 0x65, 0x10, 0x06, 0x10, 0xCA,
        0xD0, 0xF4, 0x85, 0x12])
    (hp : c.machine.bus.get 0x0010 = p) (hq : c.machine.bus.get 0x0011 = q) :
    let steps := 43 + 2 * (List.range 8).countP fun i => q.toNat.testBit i
    let last := (c.stepped steps).machine
    (c.replay (List.replicate steps .step)).1 = List.replicate steps .done ∧
    last.pc = 0x0612 ∧ (∀ k < steps, (c.stepped k).machine.pc ≠ 0x0612) ∧
    (last.bus.get 0x0012).toNat = p.toNat * q.toNat % 256 ∧
    last.a.toNat = p.toNat * q.toNat % 256 ∧
    last.bus.get 0x0010 = 0 ∧ last.bus.get 0x0011 = 0 ∧ last.x = 0 ∧
    last.y = c.machine.y ∧ last.sp = c.machine.sp ∧
    (∀ f ∉ [Flag.carry, .zero, .overflow, .negative],
      last.status.get f = c.machine.status.get f) ∧
    ∀ a ∉ [(0x0010 : Address), 0x0011, 0x0012], last.bus.get a = c.machine.bus.get a := by
  intro steps last
  subst hp hq
  obtain ⟨m, m', hcourse, hend, hpc', ha', hx', hbus', hrest'⟩ :=
    Machine.course_multiplication hcode hpc
  obtain ⟨hanswers, hmachine, -, hbefore⟩ := hcourse.arrives hready rfl
  have hlast : last = m' := hmachine
  obtain ⟨hproduct, hx, hmultiplicand, hmultiplier⟩ := hend.finished
  rw [hlast]
  refine ⟨hanswers, hpc', hbefore, ?_, ?_, ?_, ?_, ?_, hrest'.y, hrest'.sp, hrest'.flags, ?_⟩
  · rw [hbus', Memory.get_set_self]
    exact hproduct
  · rw [ha']
    exact hproduct
  · rw [hbus', Memory.get_set_ne _ (by decide)]
    exact hmultiplicand
  · rw [hbus', Memory.get_set_ne _ (by decide)]
    exact hmultiplier
  · rw [hx']
    exact hx
  · intro a ha
    rw [hbus', Memory.get_set_ne]
    · exact hend.others a fun hmem => ha (List.mem_append_left [0x12] hmem)
    · rintro rfl
      exact ha (by decide)

/-- A processor in decimal mode about to multiply 199 by 181. -/
def multiplying : Cpu Memory where
  machine := { Machine.blank ((Memory.zero.load multiplication 0x0600).load [199, 181] 0x0010) with
    pc := 0x0600, sp := 0xF0, y := 7, status := { Status.powerOn with decimal := true } }
  remaining := 0
  cycles := 0

/-- Five bits of the multiplier are set, and the product is 179 above 140 times 256. -/
theorem multiplies_decimal :
    let last := (multiplying.stepped (43 + 2 * 5)).machine
    multiplying.ready = true ∧ multiplying.machine.pc = 0x0600 ∧
    Bus.readBytes multiplying.machine.bus 0x0600 18 =
      [0xA9, 0x00, 0xA2, 0x08, 0x46, 0x11, 0x90, 0x03, 0x18, 0x65, 0x10, 0x06, 0x10, 0xCA,
        0xD0, 0xF4, 0x85, 0x12] ∧
    multiplying.machine.bus.get 0x0010 = 199 ∧ multiplying.machine.bus.get 0x0011 = 181 ∧
    last.pc = 0x0612 ∧ (last.bus.get 0x0012).toNat = 179 ∧ last.y = 7 ∧
    last.status.get .decimal = true := by
  have hcode : Bus.readBytes multiplying.machine.bus 0x0600 18 =
      [0xA9, 0x00, 0xA2, 0x08, 0x46, 0x11, 0x90, 0x03, 0x18, 0x65, 0x10, 0x06, 0x10, 0xCA,
        0xD0, 0xF4, 0x85, 0x12] := by
    simp [Bus.readBytes, List.range_succ, multiplying, Machine.blank, multiplication,
      Memory.get_set]
  have hp : multiplying.machine.bus.get 0x0010 = 199 := by
    simp [multiplying, Machine.blank, multiplication, Memory.get_set]
  have hq : multiplying.machine.bus.get 0x0011 = 181 := by
    simp [multiplying, Machine.blank, multiplication]
  have hbits : (List.range 8).countP (fun i => (181 : Byte).toNat.testBit i) = 5 := by decide
  have hall := multiplies (c := multiplying) rfl rfl hcode hp hq
  simp only [hbits] at hall
  obtain ⟨-, hpc, -, hproduct, -, -, -, -, hy, -, hflags, -⟩ := hall
  exact ⟨rfl, rfl, hcode, hp, hq, hpc, hproduct, hy, hflags .decimal (by decide)⟩

end Cpu

end Nmos6502
