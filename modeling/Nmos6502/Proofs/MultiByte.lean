/-
Addition and subtraction of numbers of any width.

The arithmetic unit adds bytes.  A program that adds wider numbers lets the carry ripple
from byte to byte, and what comes out is exact: `Sums` is that scheme, and along it the
bytes and the carry that remains are the whole sum, the last overflow says whether the
signed sum fits, and the last result has the sign.  The induction goes from the highest
byte down, where the single byte is the base: a lower byte changes neither the sign nor
what fits.  Subtraction is the same on the complement of the second number.

`Cpu.Ripple` is the scheme as executed.  It asks of what comes between two executions only
that the carry is kept.
-/
import Nmos6502.Arithmetic
import Nmos6502.Memory
import Nmos6502.Proofs.Footprint
import Nmos6502.Proofs.LittleEndian

namespace Nmos6502

/-! ### One byte -/

/-- The overflow says whether the signed sum fits, and with the sign it tells the true one. -/
theorem addWithCarry_signed (a v : Byte) (carry : Bool) :
    let s := addWithCarry a v carry
    let t := twosComplement [a] + twosComplement [v] + carry.toNat
    (s.overflow = true ↔ ¬FitsSigned 1 t) ∧ ((signBit s.value ^^ s.overflow) = true ↔ t < 0) := by
  intro s t
  have hbyte : s.value.toNat + 256 * s.carry.toNat = _ := addWithCarry_exact a v carry
  have hoverflow : s.overflow = (signBit a == signBit v && signBit s.value != signBit a) := rfl
  have hfits : FitsSigned 1 t ↔ -128 ≤ t ∧ t ≤ 127 := Iff.rfl
  have ht : t = twosComplement [a] + twosComplement [v] + carry.toNat := rfl
  have hcarry := carry.toNat_le
  have ha := signBit_bounds a
  have hv := signBit_bounds v
  have hr := signBit_bounds s.value
  rw [twosComplement_singleton, twosComplement_singleton] at ht
  rw [hoverflow, hfits]
  clear_value s t
  -- The three signs decide the overflow, and each of them bounds its byte.
  cases hsa : signBit a <;> cases hsv : signBit v <;> cases hsr : signBit s.value <;>
    simp only [hsa, hsv, hsr, Bool.toNat_true, Bool.toNat_false] at ha hv hr ht <;>
    simp <;> omega

/-! ### The carry rippling through the bytes -/

/--
A sum taken byte by byte from the low end, each carry going into the next.  The indices
are the carry that goes in, the bytes of the two numbers, the bytes of the result and the
last of the sums.
-/
inductive Sums (sum : Byte → Byte → Bool → ByteSum) :
    Bool → List Byte → List Byte → List Byte → ByteSum → Prop
  | last (carry : Bool) (p q : Byte) :
      Sums sum carry [p] [q] [(sum p q carry).value] (sum p q carry)
  | next {carry : Bool} {p q : Byte} {ps qs rs : List Byte} {s : ByteSum}
      (rest : Sums sum (sum p q carry).carry ps qs rs s) :
      Sums sum carry (p :: ps) (q :: qs) ((sum p q carry).value :: rs) s

namespace Sums

variable {carry : Bool} {ps qs rs : List Byte} {s : ByteSum}

theorem length {sum : Byte → Byte → Bool → ByteSum} (h : Sums sum carry ps qs rs s) :
    1 ≤ ps.length ∧ qs.length = ps.length ∧ rs.length = ps.length := by
  induction h with
  | last carry p q => exact ⟨Nat.le_refl 1, rfl, rfl⟩
  | next rest ih =>
      obtain ⟨-, hq, hr⟩ := ih
      exact ⟨Nat.le_add_left _ _, congrArg (· + 1) hq, congrArg (· + 1) hr⟩

/-- The result and the carry that is left are the exact sum. -/
theorem add_exact (h : Sums addWithCarry carry ps qs rs s) :
    littleEndian rs + 256 ^ ps.length * s.carry.toNat =
      littleEndian ps + littleEndian qs + carry.toNat := by
  induction h with
  | last carry p q =>
      have hbyte := addWithCarry_exact p q carry
      simpa [littleEndian] using hbyte
  | @next carry p q ps qs rs s rest ih =>
      have hbyte := addWithCarry_exact p q carry
      simp only [littleEndian, List.length_cons]
      rw [Nat.pow_succ, Nat.mul_right_comm]
      omega

/-- The last overflow says whether the signed sum fits, and with the sign it tells the true one. -/
theorem add_signed (h : Sums addWithCarry carry ps qs rs s) :
    let t := twosComplement ps + twosComplement qs + carry.toNat
    (s.overflow = true ↔ ¬FitsSigned ps.length t) ∧
      ((signBit s.value ^^ s.overflow) = true ↔ t < 0) := by
  induction h with
  | last carry p q => exact addWithCarry_signed p q carry
  | @next carry p q ps qs rs s rest ih =>
      obtain ⟨hoverflow, hsign⟩ := ih
      obtain ⟨hps, hqs, -⟩ := rest.length
      have hbyte := addWithCarry_exact p q carry
      have hlow := (addWithCarry p q carry).value.toNat_lt
      have ht : twosComplement (p :: ps) + twosComplement (q :: qs) + carry.toNat =
          (addWithCarry p q carry).value.toNat + 256 * (twosComplement ps + twosComplement qs +
            (addWithCarry p q carry).carry.toNat) := by
        rw [twosComplement_cons p hps, twosComplement_cons q (by omega)]
        omega
      rw [ht]
      refine ⟨?_, ?_⟩
      · rw [hoverflow, List.length_cons, fitsSigned_cons hps]
      · rw [hsign]
        omega

/-- The sign of the last byte is the top bit of the result. -/
theorem sign_eq_testBit {sum : Byte → Byte → Bool → ByteSum} (h : Sums sum carry ps qs rs s) :
    signBit s.value = (littleEndian rs).testBit (8 * ps.length - 1) := by
  induction h with
  | last carry p q => exact signBit_eq_testBit _
  | @next carry p q ps qs rs s rest ih =>
      obtain ⟨hps, -, -⟩ := rest.length
      have hexp : 8 * (p :: ps).length - 1 = 8 * ps.length - 1 + 8 := by
        rw [List.length_cons]
        omega
      rw [hexp, testBit_littleEndian_cons, ih]

/-- Subtracting is adding the complement. -/
theorem complement (h : Sums subtractWithBorrow carry ps qs rs s) :
    Sums addWithCarry carry ps (qs.map (~~~ ·)) rs s := by
  induction h with
  | last carry p q => exact .last carry p (~~~q)
  | next rest ih => exact .next ih

/-- A carry that is left after subtracting means that nothing was borrowed. -/
theorem sub_exact (h : Sums subtractWithBorrow carry ps qs rs s) :
    (littleEndian rs : Int) = littleEndian ps - littleEndian qs - (1 - carry.toNat) +
      256 ^ ps.length * (1 - s.carry.toNat) := by
  have hsum := h.complement.add_exact
  have hbytes := littleEndian_complement qs
  have hcast : ((256 ^ ps.length : Nat) : Int) = 256 ^ ps.length := Int.natCast_pow 256 _
  rw [h.length.2.1] at hbytes
  rw [← hcast, Int.mul_sub, Int.mul_one]
  omega

/-- Overflow and sign tell of the signed difference what they tell of a sum. -/
theorem sub_signed (h : Sums subtractWithBorrow carry ps qs rs s) :
    let t := twosComplement ps - twosComplement qs - (1 - carry.toNat)
    (s.overflow = true ↔ ¬FitsSigned ps.length t) ∧
      ((signBit s.value ^^ s.overflow) = true ↔ t < 0) := by
  obtain ⟨hps, hqs, -⟩ := h.length
  have ht : twosComplement ps - twosComplement qs - (1 - carry.toNat) =
      twosComplement ps + twosComplement (qs.map (~~~ ·)) + carry.toNat := by
    rw [twosComplement_complement (by omega)]
    omega
  rw [ht]
  exact h.complement.add_signed

end Sums

/-! ### The bytes as instructions find them -/

namespace Cpu

variable {σ : Type} [Bus σ]

/-- The next tick executes this instruction, whose operand holds this byte. -/
def Executes (c : Cpu σ) (i : Instruction) (v : Byte) : Prop :=
  ∃ d, c.Fetches d ∧ d.instruction = i ∧ c.machine.operandValue d.operand = v

/--
An instruction executed once for each byte of two numbers, from the low end.  The indices
are the carry before the first execution, the bytes that the accumulator and the operands
hold, the bytes that are left in the accumulator and the machine after the last execution.
Between two executions anything may happen that keeps the carry.
-/
inductive Ripple (i : Instruction) : Bool → List Byte → List Byte → List Byte → Machine σ → Prop
  | last {c : Cpu σ} {q : Byte} (h : c.Executes i q) :
      Ripple i c.machine.status.carry [c.machine.a] [q] [c.tick.2.machine.a] c.tick.2.machine
  | next {c : Cpu σ} {q : Byte} {ps qs rs : List Byte} {m : Machine σ} (h : c.Executes i q)
      (rest : Ripple i c.tick.2.machine.status.carry ps qs rs m) :
      Ripple i c.machine.status.carry (c.machine.a :: ps) (q :: qs) (c.tick.2.machine.a :: rs) m

/-- An instruction whose byte is right behind its opcode. -/
theorem executes_of_immediate {c : Cpu σ} (hready : c.ready = true) {opcode cycles v : Byte}
    {i : Instruction} (hlookup : Opcode.lookup opcode = some ⟨i, .immediate, cycles⟩)
    (hopcode : Bus.read c.machine.bus c.machine.pc = opcode)
    (hv : Bus.read c.machine.bus (c.machine.pc + 1) = v) : c.Executes i v := by
  rw [← hopcode] at hlookup
  obtain ⟨d, hd, hi, hmode⟩ := exists_decode_of_lookup c.machine.x c.machine.y hlookup
  refine ⟨d, ⟨hready, hd⟩, hi, ?_⟩
  rw [operand_of_decode hd, hmode]
  exact hv

/-- An instruction that only reads its operand is handed the byte. -/
theorem Executes.consumes {c : Cpu σ} {i : Instruction} {v : Byte} (h : c.Executes i v)
    (hi : ∀ (m : Machine σ) o, m.perform o i.family = m.consume (m.operandValue o) i.family) :
    ∃ pc, c.tick.2.machine = { c.machine with pc }.consume v i.family := by
  obtain ⟨d, hd, rfl, rfl⟩ := h
  rw [tick_of_fetches hd, hi, Machine.operandValue_past]
  exact ⟨_, rfl⟩

/-- One execution puts the sum into the accumulator and lets it decide the flags. -/
theorem Executes.accumulates {c : Cpu σ} {i : Instruction} {q : Byte} (h : c.Executes i q)
    {sum : Byte → Byte → Bool → ByteSum} (hi : i.family = .accumulate sum) :
    let s := sum c.machine.a q c.machine.status.carry
    let m := c.tick.2.machine
    m.a = s.value ∧ m.status.carry = s.carry ∧ m.status.overflow = s.overflow ∧
      m.status.Shows s.value := by
  obtain ⟨pc, hafter⟩ := h.consumes (by rw [hi]; exact fun _ _ => rfl)
  rw [hafter, hi]
  exact ⟨rfl, rfl, rfl, rfl, rfl⟩

/-- What the executions leave is what the sums leave. -/
theorem Ripple.sums {i : Instruction} {carry : Bool} {ps qs rs : List Byte} {m : Machine σ}
    (h : Ripple i carry ps qs rs m) {sum : Byte → Byte → Bool → ByteSum}
    (hi : i.family = .accumulate sum) :
    ∃ s, Sums sum carry ps qs rs s ∧ m.status.carry = s.carry ∧
      m.status.overflow = s.overflow ∧ m.status.negative = signBit s.value := by
  induction h with
  | last h =>
      obtain ⟨ha, hcarry, hoverflow, -, hnegative⟩ := h.accumulates hi
      rw [ha]
      exact ⟨_, .last _ _ _, hcarry, hoverflow, hnegative⟩
  | next h rest ih =>
      obtain ⟨ha, hcarry, -⟩ := h.accumulates hi
      obtain ⟨s, hsums, hflags⟩ := ih
      rw [ha]
      rw [hcarry] at hsums
      exact ⟨s, .next hsums, hflags⟩

/-! ### Numbers of any width can be added -/

/-- A processor about to execute an instruction that has its operand right behind it. -/
def immediate (opcode a v : Byte) (status : Status) : Cpu Memory where
  machine := { Machine.blank ((Memory.zero.set 0x0200 opcode).set 0x0201 v) with
    a, status, pc := 0x0200 }
  remaining := 0
  cycles := 0

theorem executes_immediate {opcode cycles : Byte} {i : Instruction}
    (h : Opcode.lookup opcode = some ⟨i, .immediate, cycles⟩) (a v : Byte) (status : Status) :
    (immediate opcode a v status).Executes i v := by
  refine executes_of_immediate rfl h ?_ ?_
  · show (immediate opcode a v status).machine.bus.get 0x0200 = opcode
    simp [immediate, Machine.blank, Memory.get_set]
  · show (immediate opcode a v status).machine.bus.get 0x0201 = v
    simp [immediate, Machine.blank]

/-- There are executions for any two numbers of one width, whatever the other flags are. -/
theorem exists_ripple {opcode cycles : Byte} {i : Instruction}
    (h : Opcode.lookup opcode = some ⟨i, .immediate, cycles⟩) (status : Status) :
    ∀ (ps qs : List Byte) (carry : Bool), 1 ≤ ps.length → qs.length = ps.length →
      ∃ rs, ∃ m : Machine Memory, Ripple i carry ps qs rs m := by
  intro ps
  induction ps with
  | nil => intro qs carry hps; exact absurd hps (by decide)
  | cons p ps ih =>
      intro qs carry _ hqs
      obtain ⟨q, qs, rfl⟩ := List.exists_cons_of_length_eq_add_one hqs
      have hnow := executes_immediate h p q { status with carry }
      cases ps with
      | nil =>
          obtain rfl : qs = [] := List.length_eq_zero_iff.mp (Nat.succ.inj hqs)
          exact ⟨_, _, .last hnow⟩
      | cons p' ps =>
          obtain ⟨rs, m, hrest⟩ := ih qs _ (Nat.le_add_left 1 _) (Nat.succ.inj hqs)
          exact ⟨_, m, .next hnow hrest⟩

/-! ### What comes out -/

/--
**Addition and subtraction of any width are exact.**  Let the accumulator run over the
bytes of one number and the operands over those of another, from the low end, with the
carry kept in between; nothing else about the processors matters.  After additions, the
result with the carry that is left above it is the sum of both numbers and the first
carry.  After subtractions, the result is their difference less the first borrow, and
what is borrowed from above it leaves the carry clear.  Either way overflow is set
exactly if the signed sum or difference does not fit, and negative is the top bit of the
result; so after a subtraction that began without a borrow the two flags differ exactly
if the first number is the smaller one, read signed.
-/
theorem ripple_exact {i : Instruction} {carry : Bool} {ps qs rs : List Byte} {m : Machine σ}
    (h : Ripple i carry ps qs rs m) :
    let k := ps.length
    (i = .adc →
      (qs.length = k ∧ rs.length = k) ∧
      littleEndian rs + 256 ^ k * m.status.carry.toNat =
        littleEndian ps + littleEndian qs + carry.toNat ∧
      (m.status.overflow = true ↔
        ¬FitsSigned k (twosComplement ps + twosComplement qs + carry.toNat)) ∧
      m.status.negative = (littleEndian rs).testBit (8 * k - 1)) ∧
    (i = .sbc →
      (qs.length = k ∧ rs.length = k) ∧
      (littleEndian rs : Int) = littleEndian ps - littleEndian qs - (1 - carry.toNat) +
        256 ^ k * (1 - m.status.carry.toNat) ∧
      littleEndian rs < 256 ^ k ∧
      (m.status.overflow = true ↔
        ¬FitsSigned k (twosComplement ps - twosComplement qs - (1 - carry.toNat))) ∧
      m.status.negative = (littleEndian rs).testBit (8 * k - 1) ∧
      (carry = true → ((m.status.negative ^^ m.status.overflow) = true ↔
        twosComplement ps < twosComplement qs))) := by
  intro k
  refine ⟨?_, ?_⟩
  · rintro rfl
    obtain ⟨s, hs, hcarry, hoverflow, hnegative⟩ := h.sums rfl
    rw [hcarry, hoverflow, hnegative]
    exact ⟨hs.length.2, hs.add_exact, hs.add_signed.1, hs.sign_eq_testBit⟩
  · rintro rfl
    obtain ⟨s, hs, hcarry, hoverflow, hnegative⟩ := h.sums rfl
    have hlt := littleEndian_lt rs
    obtain ⟨hfits, hsign⟩ := hs.sub_signed
    rw [hs.length.2.2] at hlt
    rw [hcarry, hoverflow, hnegative]
    refine ⟨hs.length.2, hs.sub_exact, hlt, hfits, hs.sign_eq_testBit, ?_⟩
    rintro rfl
    rw [hsign, Bool.toNat_true]
    omega

/-- A carry and a borrow go through the low byte into the sign. -/
theorem ripple_exact_carrying :
    (∃ rs, ∃ m : Machine Memory, Ripple .adc false [0xFF, 0x7F] [0x01, 0x00] rs m ∧
      littleEndian rs = 0x8000 ∧ m.status.carry = false ∧ m.status.overflow = true) ∧
    ∃ rs, ∃ m : Machine Memory, Ripple .sbc true [0x00, 0x80] [0x01, 0x00] rs m ∧
      littleEndian rs = 0x7FFF ∧ m.status.carry = true ∧ m.status.overflow = true ∧
      m.status.negative = false := by
  have hadc : Opcode.lookup 0x69 = some ⟨.adc, .immediate, 2⟩ := by decide +kernel
  have hsbc : Opcode.lookup 0xE9 = some ⟨.sbc, .immediate, 2⟩ := by decide +kernel
  refine ⟨?_, ?_⟩
  · obtain ⟨rs, m, h⟩ :=
      exists_ripple hadc .powerOn [0xFF, 0x7F] [0x01, 0x00] false (by decide) rfl
    obtain ⟨-, hexact, hoverflow, -⟩ := (ripple_exact h).1 rfl
    have hsum : littleEndian rs + 65536 * m.status.carry.toNat = 32768 := hexact
    have hfits : ¬FitsSigned 2 (twosComplement [0xFF, 0x7F] + twosComplement [0x01, 0x00] + 0) := by
      decide
    have hcarry : m.status.carry = false := Bool.toNat_eq_zero.mp (by omega)
    rw [hcarry] at hsum
    exact ⟨rs, m, h, hsum, hcarry, hoverflow.mpr hfits⟩
  · obtain ⟨rs, m, h⟩ :=
      exists_ripple hsbc .powerOn [0x00, 0x80] [0x01, 0x00] true (by decide) rfl
    obtain ⟨-, hexact, hlt, hoverflow, hnegative, -⟩ := (ripple_exact h).2 rfl
    have hdifference : (littleEndian rs : Int) = 32767 + 65536 * (1 - m.status.carry.toNat) :=
      hexact
    have hsmall : littleEndian rs < 65536 := hlt
    have hfits : ¬FitsSigned 2 (twosComplement [0x00, 0x80] - twosComplement [0x01, 0x00] - 0) := by
      decide
    have hcarry : m.status.carry = true := Bool.toNat_eq_one.mp (by omega)
    have hrs : littleEndian rs = 0x7FFF := by
      rw [hcarry] at hdifference
      exact Int.ofNat.inj hdifference
    rw [hrs] at hnegative
    exact ⟨rs, m, h, hrs, hcarry, hoverflow.mpr hfits, hnegative⟩

end Cpu

end Nmos6502
