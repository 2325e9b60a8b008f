/-
Comparing is subtracting without keeping the difference.

`CMP` and its kin ask whether the register is below the byte and subtract in byte arithmetic;
`SBC` adds a complement and looks at what is cut off.  After `SEC`, which says that nothing
has been borrowed yet, the two decide the same flags, `compareBytes_eq_subtractWithBorrow`.

A comparison can therefore stand for the lowest subtraction of a longer one.  `Cpu.Borrows`
is what goes on from there, byte by byte through loads and subtractions, each borrow going
into the next.  What it leaves in the carry is the order of the two numbers: a borrow out
of the low bytes is one that the bytes above have to pay for, `borrow_littleEndian_cons`.
-/
import Nmos6502.Proofs.MultiByte

namespace Nmos6502

/-! ### The arithmetic unit -/

/-- A register is not below a byte exactly if nothing is borrowed in subtracting it. -/
theorem compareBytes_eq_subtractWithBorrow (register v : Byte) :
    let compared := compareBytes register v
    let subtracted := subtractWithBorrow register v true
    compared.difference = subtracted.value ∧ compared.carry = subtracted.carry := by
  intro compared subtracted
  have hr := register.toNat_lt
  have hv := v.toNat_lt
  have hnot : (~~~v).toNat = 255 - v.toNat := UInt8.toNat_not v
  refine ⟨?_, ?_⟩
  · show register - v = _
    rw [subtractWithBorrow_value]
    exact (UInt8.sub_zero _).symm
  · show decide (v ≤ register) = decide (256 ≤ register.toNat + (~~~v).toNat + true.toNat)
    rw [hnot, Bool.toNat_true, decide_eq_decide, UInt8.le_iff_toNat_le]
    omega

/-- Whether numbers can be subtracted is decided above their low bytes, given the borrow there. -/
theorem borrow_littleEndian_cons (p q : Byte) (carry : Bool) (ps qs : List Byte) :
    littleEndian qs + 1 ≤ littleEndian ps + (subtractWithBorrow p q carry).carry.toNat ↔
      littleEndian (q :: qs) + 1 ≤ littleEndian (p :: ps) + carry.toNat := by
  have hbyte : (subtractWithBorrow p q carry).value.toNat +
      256 * (subtractWithBorrow p q carry).carry.toNat = _ := addWithCarry_exact p (~~~q) carry
  have hlow := (subtractWithBorrow p q carry).value.toNat_lt
  have hq := q.toNat_lt
  have hnot : (~~~q).toNat = 255 - q.toNat := UInt8.toNat_not q
  rw [littleEndian, littleEndian]
  omega

/-! ### One execution -/

namespace Cpu

section

variable {σ : Type} [Bus σ] {c : Cpu σ} {i : Instruction} {v : Byte}

/-- A comparison decides three flags and changes nothing else that a program works on. -/
theorem Executes.compares {r : Register} (h : c.Executes i v) (hi : i.family = .compare r) :
    let compared := compareBytes (c.machine.get r) v
    ∃ pc, c.tick.2.machine =
      { c.machine with
        pc
        status :=
          { c.machine.status.setZN compared.difference with carry := compared.carry } } := by
  intro compared
  obtain ⟨pc, hafter⟩ := h.consumes (by rw [hi]; exact fun _ _ => rfl)
  refine ⟨pc, ?_⟩
  rw [hafter, hi, Machine.consume, Machine.get_with_pc]

/-- A load of the accumulator leaves the carry. -/
theorem Executes.loads (h : c.Executes .lda v) :
    c.tick.2.machine.a = v ∧ c.tick.2.machine.status.carry = c.machine.status.carry := by
  obtain ⟨pc, hafter⟩ := h.consumes fun _ _ => rfl
  rw [hafter]
  exact ⟨rfl, rfl⟩

/-! ### A comparison is a subtraction that borrows nothing -/

/-- The next two instructions are `SEC` and an `SBC` whose operand holds this byte. -/
def SubtractsAfterSec (c : Cpu σ) (v : Byte) : Prop :=
  (∃ d, c.Fetches d ∧ d.instruction = .sec) ∧ c.stepInstruction.2.Executes .sbc v

theorem SubtractsAfterSec.subtracts (h : c.SubtractsAfterSec v) :
    let subtracted := subtractWithBorrow c.machine.a v true
    let status := c.stepInstruction.2.tick.2.machine.status
    status.carry = subtracted.carry ∧ status.Shows subtracted.value := by
  obtain ⟨⟨d, hd, hsec⟩, hsbc⟩ := h
  have hbefore : c.stepInstruction.2.machine.a = c.machine.a ∧
      c.stepInstruction.2.machine.status.carry = true := by
    rw [stepInstruction_of_fetches hd, hsec]
    exact ⟨rfl, rfl⟩
  obtain ⟨-, hcarry, -, hshows⟩ := hsbc.accumulates rfl
  rw [hbefore.1, hbefore.2] at hcarry hshows
  exact ⟨hcarry, hshows⟩

/-- A comparison decides what a subtraction after `SEC` decides of the same bytes. -/
theorem Executes.compares_as_subtracts {r : Register} (h : c.Executes i v)
    (hi : i.family = .compare r) {τ : Type} [Bus τ] {s : Cpu τ} (hs : s.SubtractsAfterSec v)
    (ha : s.machine.a = c.machine.get r) :
    let compared := c.tick.2.machine.status
    let subtracted := s.stepInstruction.2.tick.2.machine.status
    compared.carry = subtracted.carry ∧ compared.zero = subtracted.zero ∧
      compared.negative = subtracted.negative := by
  intro compared subtracted
  obtain ⟨pc, hafter⟩ := h.compares hi
  obtain ⟨hcarry, hzero, hnegative⟩ := hs.subtracts
  obtain ⟨hdifference, hborrow⟩ := compareBytes_eq_subtractWithBorrow (c.machine.get r) v
  rw [ha] at hcarry hzero hnegative
  rw [hcarry, hzero, hnegative, ← hdifference, ← hborrow]
  have hcompared : compared = _ := congrArg Machine.status hafter
  rw [hcompared]
  exact ⟨rfl, rfl, rfl⟩

end

/-- A processor in front of `SEC` and an `SBC` that has its byte right behind it. -/
def subtracting (a v : Byte) (status : Status) : Cpu Memory where
  machine := { Machine.blank (((Memory.zero.set 0x0200 0x38).set 0x0201 0xE9).set 0x0202 v) with
    a, status, pc := 0x0200 }
  remaining := 0
  cycles := 0

theorem subtractsAfterSec_subtracting (a v : Byte) (status : Status) :
    (subtracting a v status).SubtractsAfterSec v := by
  have hsec : Opcode.lookup 0x38 = some ⟨.sec, .implied, 2⟩ := by decide +kernel
  have hsbc : Opcode.lookup 0xE9 = some ⟨.sbc, .immediate, 2⟩ := by decide +kernel
  have hcells : (subtracting a v status).machine.bus.get 0x0200 = 0x38 ∧
      (subtracting a v status).machine.bus.get 0x0201 = 0xE9 ∧
      (subtracting a v status).machine.bus.get 0x0202 = v := by
    simp [subtracting, Machine.blank, Memory.get_set]
  obtain ⟨hfirst, hsecond, hthird⟩ := hcells
  have hlookup : Opcode.lookup (Bus.read (subtracting a v status).machine.bus 0x0200) =
      some ⟨.sec, .implied, 2⟩ := by
    rw [Memory.read_eq, hfirst, hsec]
  obtain ⟨d, hd, hi, hmode⟩ := exists_decode_of_lookup 0x00 0x00 hlookup
  have hfetch : (subtracting a v status).Fetches d := ⟨rfl, hd⟩
  have hpc : (0x0200 : Address) + UInt16.ofNat d.size = 0x0201 := by
    rw [size_of_decode hd, hmode]
    rfl
  refine ⟨⟨d, hfetch, hi⟩, ?_⟩
  rw [stepInstruction_of_fetches hfetch, hi]
  refine executes_of_immediate rfl hsbc ?_ ?_
  · show (subtracting a v status).machine.bus.get (0x0200 + UInt16.ofNat d.size) = 0xE9
    rw [hpc, hsecond]
  · show (subtracting a v status).machine.bus.get (0x0200 + UInt16.ofNat d.size + 1) = v
    rw [hpc]
    exact hthird

/-! ### Comparing numbers of any width -/

section

variable {σ : Type} [Bus σ]

/--
The rest of a comparison, one byte of each number after the other: the accumulator is
loaded and the operand subtracted.  The indices are the carry before the first load, the
bytes that are loaded, the bytes that are subtracted and the machine behind the last
subtraction.  In between anything may happen that keeps the carry, and between a load and
its subtraction the accumulator.
-/
inductive Borrows : Bool → List Byte → List Byte → Machine σ → Prop
  | done (m : Machine σ) : Borrows m.status.carry [] [] m
  | next {l s : Cpu σ} {p q : Byte} {ps qs : List Byte} {m : Machine σ} (hload : l.Executes .lda p)
      (ha : s.machine.a = l.tick.2.machine.a)
      (hcarry : s.machine.status.carry = l.tick.2.machine.status.carry)
      (hsubtract : s.Executes .sbc q) (hrest : Borrows s.tick.2.machine.status.carry ps qs m) :
      Borrows l.machine.status.carry (p :: ps) (q :: qs) m

/-- The carry goes through the bytes as it does through those of a subtraction. -/
theorem Borrows.carry_iff {carry : Bool} {ps qs : List Byte} {m : Machine σ}
    (h : Borrows carry ps qs m) :
    qs.length = ps.length ∧
      (m.status.carry = true ↔ littleEndian qs + 1 ≤ littleEndian ps + carry.toNat) := by
  induction h with
  | done m =>
      refine ⟨rfl, ?_⟩
      cases m.status.carry <;> decide
  | @next l s p q ps qs m hload ha hcarry hsubtract hrest ih =>
      obtain ⟨hloaded, hkept⟩ := hload.loads
      obtain ⟨-, hborrow, -⟩ := hsubtract.accumulates rfl
      obtain ⟨hlength, hleft⟩ := ih
      rw [ha, hloaded, hcarry, hkept] at hborrow
      rw [hborrow, borrow_littleEndian_cons] at hleft
      exact ⟨congrArg (· + 1) hlength, hleft⟩

/--
**Comparing is subtracting without keeping the difference.**  Whatever the state and the
mode, a comparison of a register with a byte leaves carry, zero and negative as `SEC` and
`SBC` of the same byte leave them when the accumulator holds what the register held, and
changes no register and no other flag; there is such a pair for every comparison.  So a
comparison of the lowest bytes of two numbers of any width, and then a load and a
subtraction for every byte above them, leave the carry set exactly if the first number is
not the smaller one, whatever the flags were before.
-/
theorem compare_agrees_with_subtract :
    (∀ (c : Cpu σ) (i : Instruction) (r : Register) (v : Byte),
      (i, r) ∈ [(Instruction.cmp, Register.a), (.cpx, .x), (.cpy, .y)] → c.Executes i v →
      let m := c.machine
      let m' := c.tick.2.machine
      (∀ {τ : Type} [Bus τ] (s : Cpu τ), s.SubtractsAfterSec v → s.machine.a = m.get r →
        let status := s.stepInstruction.2.tick.2.machine.status
        m'.status.carry = status.carry ∧ m'.status.zero = status.zero ∧
          m'.status.negative = status.negative) ∧
      (∃ s : Cpu Memory, s.SubtractsAfterSec v ∧ s.machine.a = m.get r ∧
        s.machine.status = m.status) ∧
      (∀ q, m'.get q = m.get q) ∧
      (∀ f ∉ [Flag.carry, .zero, .negative], m'.status.get f = m.status.get f) ∧
      m'.bus = m.bus) ∧
    ∀ (c : Cpu σ) (q : Byte) (ps qs : List Byte) (m : Machine σ),
      c.Executes .cmp q → Borrows c.tick.2.machine.status.carry ps qs m →
      qs.length = ps.length ∧
        (m.status.carry = true ↔ littleEndian (q :: qs) ≤ littleEndian (c.machine.a :: ps)) := by
  refine ⟨?_, ?_⟩
  · intro c i r v hir h m m'
    have hi : i.family = .compare r := by
      simp only [List.mem_cons, Prod.mk.injEq, List.not_mem_nil, or_false] at hir
      rcases hir with ⟨rfl, rfl⟩ | ⟨rfl, rfl⟩ | ⟨rfl, rfl⟩ <;> rfl
    obtain ⟨pc, hafter⟩ := h.compares hi
    have hm' : m' = _ := hafter
    refine ⟨fun s hs ha => h.compares_as_subtracts hi hs ha,
      ⟨subtracting (m.get r) v m.status, subtractsAfterSec_subtracting _ _ _, rfl, rfl⟩, ?_, ?_, ?_⟩
    · intro q
      rw [hm']
      cases q <;> rfl
    · intro f hf
      rw [hm']
      exact Status.get_setZN_carry_of_notMem _ hf _ _
    · rw [hm']
  · intro c q ps qs m hcompare hrest
    obtain ⟨pc, hafter⟩ := hcompare.compares rfl
    obtain ⟨hlength, hleft⟩ := hrest.carry_iff
    have hcarry : c.tick.2.machine.status.carry =
        (subtractWithBorrow c.machine.a q true).carry := by
      rw [hafter]
      exact (compareBytes_eq_subtractWithBorrow c.machine.a q).2
    rw [hcarry, borrow_littleEndian_cons, Bool.toNat_true, Nat.add_le_add_iff_right] at hleft
    exact ⟨hlength, hleft⟩

/-- A step over an instruction that only reads the byte right behind it. -/
theorem stepInstruction_of_immediate {c : Cpu σ} (hready : c.ready = true)
    {opcode cycles v : Byte} {i : Instruction}
    (hlookup : Opcode.lookup opcode = some ⟨i, .immediate, cycles⟩)
    (hopcode : Bus.read c.machine.bus c.machine.pc = opcode)
    (hv : Bus.read c.machine.bus (c.machine.pc + 1) = v)
    (hi : ∀ (m : Machine σ) o, m.perform o i.family = m.consume (m.operandValue o) i.family) :
    let next := c.stepInstruction.2
    c.Executes i v ∧ next.ready = true ∧ next.machine = c.tick.2.machine ∧
      next.machine.pc = c.machine.pc + 2 ∧ next.machine.bus = c.machine.bus := by
  intro next
  have hnow := executes_of_immediate hready hlookup hopcode hv
  rw [← hopcode] at hlookup
  obtain ⟨d, hd, rfl, hmode⟩ := exists_decode_of_lookup c.machine.x c.machine.y hlookup
  have hfetch : c.Fetches d := ⟨hready, hd⟩
  have hsize : d.size = 2 := by rw [size_of_decode hd, hmode]; rfl
  have hnext : next = _ := congrArg Prod.snd (stepInstruction_of_fetches hfetch)
  refine ⟨hnow, ?_, ?_, ?_, ?_⟩
  · rw [hnext]
    rfl
  · rw [hnext, tick_of_fetches hfetch]
  · rw [hnext, hi, Machine.pc_consume, Machine.past, hsize]
    rfl
  · rw [hnext, hi, Machine.bus_consume]
    rfl

end

/-- A processor about to compare `$0100` with `$00FF`, all flags set but the carry. -/
def comparing : Cpu Memory where
  machine := { Machine.blank (Memory.zero.load [0xC9, 0xFF, 0xA9, 0x01, 0xE9, 0x00] 0x0200) with
    a := 0x00, pc := 0x0200, status := (Status.ofByte 0xFF).set .carry false }
  remaining := 0
  cycles := 0

/-- The low bytes borrow, and the high bytes can pay for it. -/
theorem compare_agrees_with_subtract_borrowing :
    let loading := comparing.stepInstruction.2
    let finishing := loading.stepInstruction.2
    comparing.Executes .cmp 0xFF ∧ loading.Executes .lda 0x01 ∧ finishing.Executes .sbc 0x00 ∧
    (subtracting 0x00 0xFF comparing.machine.status).SubtractsAfterSec 0xFF ∧
    comparing.tick.2.machine.status.carry = (subtracting 0x00 0xFF
      comparing.machine.status).stepInstruction.2.tick.2.machine.status.carry ∧
    comparing.tick.2.machine.a = 0x00 ∧ comparing.tick.2.machine.status.overflow = true ∧
    finishing.tick.2.machine.status.carry = true := by
  intro loading finishing
  have hcmp : Opcode.lookup 0xC9 = some ⟨.cmp, .immediate, 2⟩ := by decide +kernel
  have hlda : Opcode.lookup 0xA9 = some ⟨.lda, .immediate, 2⟩ := by decide +kernel
  have hsbc : Opcode.lookup 0xE9 = some ⟨.sbc, .immediate, 2⟩ := by decide +kernel
  have hcells : comparing.machine.bus.get 0x0200 = 0xC9 ∧ comparing.machine.bus.get 0x0201 = 0xFF ∧
      comparing.machine.bus.get 0x0202 = 0xA9 ∧ comparing.machine.bus.get 0x0203 = 0x01 ∧
      comparing.machine.bus.get 0x0204 = 0xE9 ∧ comparing.machine.bus.get 0x0205 = 0x00 := by
    simp [comparing, Machine.blank, Memory.get_set]
  obtain ⟨h0, h1, h2, h3, h4, h5⟩ := hcells
  have hstart : comparing.machine.pc = 0x0200 := rfl
  obtain ⟨hfirst, hready, hmachine, hpc, hbus⟩ :=
    stepInstruction_of_immediate (c := comparing) (v := 0xFF) rfl hcmp
      (by rw [hstart, Memory.read_eq, h0])
      (by rw [hstart, Memory.read_eq]; exact h1) fun _ _ => rfl
  replace hpc : loading.machine.pc = 0x0202 := by rw [hpc, hstart]; rfl
  obtain ⟨hsecond, hready', hmachine', hpc', hbus'⟩ :=
    stepInstruction_of_immediate (c := loading) (v := 0x01) hready hlda
      (by rw [hpc, hbus, Memory.read_eq, h2]) (by rw [hpc, hbus]; exact h3) fun _ _ => rfl
  replace hpc' : finishing.machine.pc = 0x0204 := by rw [hpc', hpc]; rfl
  have hthird : finishing.Executes .sbc 0x00 :=
    executes_of_immediate hready' hsbc
      (by rw [hpc', hbus', hbus]; exact h4) (by rw [hpc', hbus', hbus]; exact h5)
  have ha : finishing.machine.a = loading.tick.2.machine.a := by rw [hmachine']
  have hcarry : finishing.machine.status.carry = loading.tick.2.machine.status.carry := by
    rw [hmachine']
  have hrest := Borrows.next hsecond ha hcarry hthird (.done finishing.tick.2.machine)
  rw [hmachine] at hrest
  obtain ⟨hbyte, hnumbers⟩ := compare_agrees_with_subtract (σ := Memory)
  obtain ⟨hflags, -, hkept, hother, -⟩ := hbyte comparing .cmp .a 0xFF (by decide) hfirst
  have hpair := subtractsAfterSec_subtracting 0x00 0xFF comparing.machine.status
  refine ⟨hfirst, hsecond, hthird, hpair, (hflags _ hpair rfl).1, hkept .a,
    hother .overflow (by decide), ?_⟩
  exact (hnumbers comparing 0xFF [0x01] [0x00] _ hfirst hrest).2.mpr (by decide)

end Cpu

end Nmos6502
