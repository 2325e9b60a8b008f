/-
Machines that an instruction cannot tell apart.

An instruction has three ways to learn something: the registers, the status bits that it
looks at, and the bytes that come back over the bus.  `Machine.Alike R seen` says that two
machines have the same registers, that they have the same of the status bits in `seen`,
and that `R` relates their buses.  If `R` is a `Bus.Bisimulation`, related buses answer
every read with the same byte and go on being related whatever is sent to them, so an
instruction that looks at no status bit outside `seen` does the same to both machines,
`Alike.perform`.  It is enough that they answer alike in the cells that the instruction
looks at, so everything is proved of a `Bus.BisimulationOn`.

Nothing is asked of the buses beyond that.  Where stack, vectors and code share cells, a
read that comes after a write sees what was written, and it does so on both sides.
-/
import Nmos6502.Proofs.Footprint
import Nmos6502.Proofs.Reads

namespace Nmos6502

/-! ### Buses that nothing can tell apart -/

namespace Bus

/-- Related buses answer every read alike, and stay related after the same write. -/
structure Bisimulation {σ τ : Type} [Bus σ] [Bus τ] (R : σ → τ → Prop) : Prop where
  read : ∀ {bus bus'}, R bus bus' → ∀ a, Bus.read bus a = Bus.read bus' a
  write : ∀ {bus bus'}, R bus bus' → ∀ a v, R (Bus.write bus a v) (Bus.write bus' a v)

theorem Bisimulation.eq (σ : Type) [Bus σ] : Bisimulation (Eq : σ → σ → Prop) where
  read h a := by rw [h]
  write h a v := by rw [h]

/--
Related buses answer reads of these cells alike, and stay related after the same write,
whichever cell it goes to.
-/
structure BisimulationOn {σ τ : Type} [Bus σ] [Bus τ] (cells : Address → Prop)
    (R : σ → τ → Prop) : Prop where
  read : ∀ {bus bus'}, R bus bus' → ∀ a, cells a → Bus.read bus a = Bus.read bus' a
  write : ∀ {bus bus'}, R bus bus' → ∀ a v, R (Bus.write bus a v) (Bus.write bus' a v)

theorem Bisimulation.everywhere {σ τ : Type} [Bus σ] [Bus τ] {R : σ → τ → Prop}
    (hR : Bisimulation R) : BisimulationOn (fun _ => True) R where
  read h a _ := hR.read h a
  write := hR.write

end Bus

section

variable {σ τ : Type} [Bus σ] [Bus τ] {bus : σ} {bus' : τ}

theorem decode_congr (h : ∀ a, Bus.read bus a = Bus.read bus' a) (a : Address) (x y : Byte) :
    decode bus a x y = decode bus' a x y :=
  decode_congr_of_agree (fun cell _ => h cell) y

end

/-! ### The status bits that an instruction looks at -/

/--
The status bits that an instruction of the family looks at.  The operation of a shift is
always handed the carry, and pushing the status looks at all of it.
-/
def Family.looks : Family → List Flag
  | accumulate _ | modify _ => [.carry]
  | branch f _ => [f]
  | pushStatus | breakProgram => Flag.all
  | _ => []

/-- Two status registers have the same of the bits in `seen`. -/
def Status.Agree (seen : List Flag) (s t : Status) : Prop := ∀ f ∈ seen, s.get f = t.get f

namespace Status.Agree

variable {seen : List Flag} {s t : Status}

theorem set (h : Agree seen s t) (f : Flag) (on : Bool) :
    Agree seen (s.set f on) (t.set f on) := by
  intro g hg
  by_cases hfg : f = g
  · rw [hfg, get_set_self, get_set_self]
  · rw [get_set_ne s hfg, get_set_ne t hfg]
    exact h g hg

theorem setZN (h : Agree seen s t) (v : Byte) : Agree seen (s.setZN v) (t.setZN v) :=
  (h.set .zero (v == 0)).set .negative (signBit v)

/-- Registers that agree in every bit are one register. -/
theorem eq (h : Agree Flag.all s t) : s = t :=
  ext_get fun f => h f (Flag.mem_all f)

end Status.Agree

/-! ### What moving bytes preserves -/

namespace Machine

variable {σ τ : Type}

/--
Two machines have the same registers, the same of the status bits in `seen`, and buses
that `R` relates.
-/
structure Alike (R : σ → τ → Prop) (seen : List Flag) (m : Machine σ) (n : Machine τ) : Prop where
  registers : ∀ r, m.get r = n.get r
  pc : m.pc = n.pc
  status : Status.Agree seen m.status n.status
  bus : R m.bus n.bus

namespace Alike

variable {R : σ → τ → Prop} {seen : List Flag} {m : Machine σ} {n : Machine τ}

/-- Whoever sees less finds no more differences. -/
theorem mono {seen' : List Flag} (h : Alike R seen m n) (hsub : ∀ f ∈ seen', f ∈ seen) :
    Alike R seen' m n :=
  ⟨h.registers, h.pc, fun f hf => h.status f (hsub f hf), h.bus⟩

/-- Machines that are alike differ in their statuses and their buses alone. -/
theorem eq_with (h : Alike R seen m n) : n = { m with status := n.status, bus := n.bus } := by
  obtain ⟨a, x, y, sp, pc, status, bus⟩ := m
  obtain ⟨a', x', y', sp', pc', status', bus'⟩ := n
  obtain rfl : a = a' := h.registers .a
  obtain rfl : x = x' := h.registers .x
  obtain rfl : y = y' := h.registers .y
  obtain rfl : sp = sp' := h.registers .sp
  obtain rfl : pc = pc' := h.pc
  rfl

/-- Where every bit is seen and the bus is one, they are one machine. -/
theorem eq {m n : Machine σ} (h : Alike Eq Flag.all m n) : m = n := by
  rw [h.eq_with, ← h.status.eq, ← h.bus]

theorem withPc (h : Alike R seen m n) (a : Address) :
    Alike R seen { m with pc := a } { n with pc := a } where
  registers r := (get_with_pc m a r).trans ((h.registers r).trans (get_with_pc n a r).symm)
  pc := rfl
  status := h.status
  bus := h.bus

/-- A status may be replaced by any two that agree, in whichever bits. -/
theorem withStatus (h : Alike R seen m n) {seen' : List Flag} {s t : Status}
    (hst : Status.Agree seen' s t) :
    Alike R seen' { m with status := s } { n with status := t } where
  registers r :=
    (get_with_status m s r).trans ((h.registers r).trans (get_with_status n t r).symm)
  pc := h.pc
  status := hst
  bus := h.bus

theorem set (h : Alike R seen m n) (r : Register) (v : Byte) :
    Alike R seen (m.set r v) (n.set r v) where
  registers q := by
    by_cases hrq : r = q
    · rw [hrq, get_set_self, get_set_self]
    · rw [get_set_ne m hrq, get_set_ne n hrq, h.registers]
  pc := by rw [pc_set, pc_set, h.pc]
  status := by
    rw [status_set, status_set]
    exact h.status
  bus := by
    rw [bus_set, bus_set]
    exact h.bus

theorem setResult (h : Alike R seen m n) (r : Register) (v : Byte) :
    Alike R seen (m.setResult r v) (n.setResult r v) := by
  have hset := h.set r v
  exact hset.withStatus (hset.status.setZN v)

theorem past (h : Alike R seen m n) (d : Decoded) : Alike R seen (m.past d) (n.past d) := by
  unfold Machine.past
  rw [h.pc]
  exact h.withPc _

variable [Bus σ] [Bus τ] {cells : Address → Prop} (hR : Bus.BisimulationOn cells R)

include hR

theorem write (h : Alike R seen m n) (a : Address) (v : Byte) :
    Alike R seen (m.write a v) (n.write a v) where
  registers r := by
    have hr := h.registers r
    cases r <;> exact hr
  pc := h.pc
  status := h.status
  bus := hR.write h.bus a v

theorem push (h : Alike R seen m n) (v : Byte) : Alike R seen (m.push v) (n.push v) := by
  have hsp : m.sp = n.sp := h.registers .sp
  show Alike R seen ((m.write (stackCell m.sp) v).set .sp (m.sp - 1))
    ((n.write (stackCell n.sp) v).set .sp (n.sp - 1))
  rw [hsp]
  exact (h.write hR _ v).set .sp _

theorem pushWord (h : Alike R seen m n) (w : Address) :
    Alike R seen (m.pushWord w) (n.pushWord w) :=
  (h.push hR _).push hR _

theorem pull_fst (h : Alike R seen m n) (hcells : ∀ a ∈ cellsAbove m.sp 1, cells a) :
    m.pull.1 = n.pull.1 := by
  have hsp : m.sp = n.sp := h.registers .sp
  show Bus.read m.bus (stackCell (m.sp + 1)) = Bus.read n.bus (stackCell (n.sp + 1))
  rw [← hsp]
  exact hR.read h.bus _ (hcells _ List.mem_cons_self)

omit hR in
theorem pull_snd (h : Alike R seen m n) : Alike R seen m.pull.2 n.pull.2 := by
  have hsp : m.sp = n.sp := h.registers .sp
  show Alike R seen (m.set .sp (m.sp + 1)) (n.set .sp (n.sp + 1))
  rw [hsp]
  exact h.set .sp _

theorem goThrough (h : Alike R seen m n) {vector : Address}
    (hcells : ∀ a ∈ cellsFrom vector 2, cells a) :
    Alike R seen (m.goThrough vector) (n.goThrough vector) := by
  unfold Machine.goThrough
  rw [Bus.readWord_congr_of_agree fun a ha => hR.read h.bus a (hcells a ha)]
  exact h.withPc _

theorem operandValue (h : Alike R seen m n) {operand : Operand}
    (hcells : ∀ a ∈ operand.cells, cells a) :
    m.operandValue operand = n.operandValue operand := by
  cases operand with
  | accumulator => exact h.registers .a
  | address a => exact hR.read h.bus a (hcells a List.mem_cons_self)
  | _ => rfl

theorem putOperand (h : Alike R seen m n) (v : Byte) (operand : Operand) :
    Alike R seen (m.putOperand v operand) (n.putOperand v operand) := by
  cases operand with
  | accumulator => exact h.set .a v
  | address a => exact h.write hR a v
  | _ => exact h

theorem putResult (h : Alike R seen m n) (s : Shifted) (operand : Operand) :
    Alike R seen (m.putResult s operand) (n.putResult s operand) := by
  have hput := h.putOperand hR s.value operand
  exact hput.withStatus ((hput.status.setZN s.value).set .carry s.carry)

/-! ### What performing an instruction preserves -/

omit hR [Bus σ] [Bus τ] in
theorem consume (h : Alike R seen m n) (v : Byte) {family : Family}
    (hlooks : ∀ f ∈ family.looks, f ∈ seen) :
    Alike R seen (m.consume v family) (n.consume v family) := by
  have ha : m.a = n.a := h.registers .a
  cases family with
  | load r => exact h.setResult r v
  | accumulate sum =>
      have hcarry : m.status.carry = n.status.carry :=
        h.status .carry (hlooks _ List.mem_cons_self)
      simp only [Machine.consume, ha, hcarry]
      generalize sum n.a v n.status.carry = s
      exact (h.set .a s.value).withStatus
        (((h.status.setZN s.value).set .carry s.carry).set .overflow s.overflow)
  | combine op =>
      simp only [Machine.consume, ha]
      exact h.setResult .a _
  | compare r =>
      simp only [Machine.consume, h.registers r]
      generalize compareBytes (n.get r) v = c
      exact h.withStatus ((h.status.setZN c.difference).set .carry c.carry)
  | bitTest =>
      refine h.withStatus ?_
      rw [ha]
      exact ((h.status.set .zero (n.a &&& v == 0)).set .overflow (v &&& 0x40 != 0)).set .negative
        (signBit v)
  | _ => exact h

/-- The status that is pulled is the byte on the stack, whatever the status was before. -/
theorem pullStatus (h : Alike R seen m n) (hcells : ∀ a ∈ cellsAbove m.sp 1, cells a)
    (seen' : List Flag) : Alike R seen' m.pullStatus n.pullStatus := by
  show Alike R seen' { m.pull.2 with status := .ofPulled m.pull.1 }
    { n.pull.2 with status := .ofPulled n.pull.1 }
  rw [h.pull_fst hR hcells]
  exact h.pull_snd.withStatus fun _ _ => rfl

theorem returnFromCall (h : Alike R seen m n) (hcells : ∀ a ∈ cellsAbove m.sp 2, cells a) :
    Alike R seen m.returnFromCall n.returnFromCall := by
  have hsp : m.sp = n.sp := h.registers .sp
  have hword : stackWord m.bus m.sp = stackWord n.bus m.sp :=
    stackWord_congr_of_agree fun a ha => hR.read h.bus a (hcells a ha)
  rw [returnFromCall_eq, returnFromCall_eq, hword, hsp]
  exact (h.set .sp (n.sp + 2)).withPc _

theorem returnFromInterrupt (h : Alike R seen m n) (hcells : ∀ a ∈ cellsAbove m.sp 3, cells a)
    (seen' : List Flag) : Alike R seen' m.returnFromInterrupt n.returnFromInterrupt := by
  have hsp : m.sp = n.sp := h.registers .sp
  have hstatus : Bus.read m.bus (stackCell (m.sp + 1)) = Bus.read n.bus (stackCell (m.sp + 1)) :=
    hR.read h.bus _ (hcells _ List.mem_cons_self)
  have hword : stackWord m.bus (m.sp + 1) = stackWord n.bus (m.sp + 1) :=
    stackWord_congr_of_agree fun a ha => hR.read h.bus a (hcells a (List.mem_cons_of_mem _ ha))
  rw [returnFromInterrupt_eq, returnFromInterrupt_eq, hstatus, hword, hsp]
  exact ((h.set .sp (n.sp + 3)).withStatus fun _ _ => rfl).withPc _

theorem pushStatus (h : Alike R Flag.all m n) : Alike R Flag.all m.pushStatus n.pushStatus := by
  unfold Machine.pushStatus
  rw [h.status.eq]
  exact h.push hR _

theorem breakProgram (h : Alike R Flag.all m n)
    (hcells : ∀ a ∈ cellsFrom irqVector 2, cells a) :
    Alike R Flag.all m.breakProgram n.breakProgram := by
  have hmasked : Alike R Flag.all (m.setFlag .interruptDisable true)
      (n.setFlag .interruptDisable true) :=
    h.withStatus (h.status.set .interruptDisable true)
  show Alike R Flag.all
    (((m.setFlag .interruptDisable true).pushWord
      ((m.setFlag .interruptDisable true).pc + 1)).pushStatus.goThrough irqVector)
    (((n.setFlag .interruptDisable true).pushWord
      ((n.setFlag .interruptDisable true).pc + 1)).pushStatus.goThrough irqVector)
  generalize m.setFlag .interruptDisable true = m' at hmasked ⊢
  generalize n.setFlag .interruptDisable true = n' at hmasked ⊢
  rw [hmasked.pc]
  exact ((hmasked.pushWord hR _).pushStatus hR).goThrough hR hcells

/-- **An instruction does the same to two machines that it cannot tell apart.** -/
theorem perform (h : Alike R seen m n) {operand : Operand} {family : Family}
    (hlooks : ∀ f ∈ family.looks, f ∈ seen)
    (hcells : ∀ a ∈ family.reads m.sp operand, cells a) :
    Alike R seen (m.perform operand family) (n.perform operand family) := by
  cases family with
  | load r | accumulate sum | combine op | compare r | bitTest =>
      simp only [Machine.perform, h.operandValue hR hcells]
      exact h.consume _ hlooks
  | store r =>
      simp only [Machine.perform, h.registers r]
      exact h.write hR _ _
  | modify op =>
      have hcarry : m.status.carry = n.status.carry :=
        h.status .carry (hlooks _ List.mem_cons_self)
      simp only [Machine.perform, h.operandValue hR hcells, hcarry]
      exact h.putResult hR _ operand
  | transfer source target =>
      simp only [Machine.perform, Machine.transfer, h.registers source]
      exact h.setResult target _
  | moveToStack =>
      have hx : m.x = n.x := h.registers .x
      simp only [Machine.perform, hx]
      exact h.set .sp _
  | adjustRegister r delta =>
      simp only [Machine.perform, Machine.adjustRegister, h.registers r]
      exact h.setResult r _
  | setFlag f on => exact h.withStatus (h.status.set f on)
  | pushAccumulator =>
      have ha : m.a = n.a := h.registers .a
      simp only [Machine.perform, ha]
      exact h.push hR _
  -- An instruction that pushes the status sees every bit, so no bit is left to differ.
  | pushStatus => exact ((h.mono hlooks).pushStatus hR).mono fun f _ => Flag.mem_all f
  | pullAccumulator =>
      show Alike R seen (m.pull.2.setResult .a m.pull.1) (n.pull.2.setResult .a n.pull.1)
      rw [h.pull_fst hR hcells]
      exact h.pull_snd.setResult .a _
  | pullStatus => exact h.pullStatus hR hcells seen
  | branch f on =>
      have hflag : m.status.get f = n.status.get f := h.status f (hlooks _ List.mem_cons_self)
      cases operand with
      | offset distance =>
          simp only [Machine.perform, hflag, h.pc]
          split
          · exact h.withPc _
          · exact h
      | _ => exact h
  | jump => exact h.withPc _
  | call =>
      simp only [Machine.perform, h.pc]
      exact (h.pushWord hR _).withPc _
  | returnFromCall => exact h.returnFromCall hR hcells
  | breakProgram =>
      exact ((h.mono hlooks).breakProgram hR hcells).mono fun f _ => Flag.mem_all f
  | returnFromInterrupt => exact h.returnFromInterrupt hR hcells seen
  | idle => exact h

end Alike

end Machine

end Nmos6502
