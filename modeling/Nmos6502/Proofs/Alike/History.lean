/-
Processors that no history can tell apart.

`Cpu.Alike R seen lag` puts the clock around machines that are alike: both processors are
as far from their next fetch, and the tick total of the second is ahead of the first by
`lag`.  A tick preserves this as long as its instruction looks at no status bit outside
`seen` and at no cell in which the buses may differ, `Alike.tick`.  Where every bit is seen
and the buses answer alike everywhere, so does every event, `Alike.handle`: the answers are
the same, a listing among them, and the lag stays what it was.  Nothing reads the tick
total, so a lag shows nowhere.

The run lemma is the induction on the history, `Alike.replay`.
-/
import Nmos6502.Event
import Nmos6502.Proofs.Alike.Instruction
import Nmos6502.Proofs.Listing.Sweep

namespace Nmos6502

/-! ### Listings of buses that read alike -/

section

variable {σ τ : Type} [Bus σ] [Bus τ] {bus : σ} {bus' : τ}

theorem lineAt_congr (h : ∀ a, Bus.read bus a = Bus.read bus' a) (a : Address) (x y : Byte) :
    lineAt bus a x y = lineAt bus' a x y := by
  rw [lineAt, lineAt, decode_congr h, h]

theorem sweepLines_congr (h : ∀ a, Bus.read bus a = Bus.read bus' a) (x y : Byte) (last : Nat) :
    ∀ cursor, sweepLines bus x y last cursor = sweepLines bus' x y last cursor := by
  refine sweep_induction bus x y last ?_ ?_
  · intro cursor hlt
    rw [sweepLines_of_lt hlt, sweepLines_of_lt hlt]
  · intro cursor hle ih
    rw [sweepLines_of_le hle, sweepLines_of_le hle, ih, lineAt_congr h]

theorem disassemble_congr (h : ∀ a, Bus.read bus a = Bus.read bus' a) (start last : Address)
    (x y : Byte) : disassemble bus start last x y = disassemble bus' start last x y := by
  have hlines := sweepLines_congr h x y last.toNat start.toNat
  exact congrArg Listing.mk (Array.toList_inj.mp hlines)

end

/-! ### What the interrupt and reset lines preserve -/

namespace Machine

variable {σ τ : Type} [Bus σ] [Bus τ] {R : σ → τ → Prop} {m : Machine σ} {n : Machine τ}

theorem Alike.interrupt (hR : Bus.Bisimulation R) (h : Alike R Flag.all m n) (vector : Address) :
    Alike R Flag.all (m.interrupt vector) (n.interrupt vector) := by
  have hword := h.pushWord hR.everywhere n.pc
  unfold Machine.interrupt
  rw [h.pc]
  show Alike R Flag.all
    (((m.pushWord n.pc).push (m.pushWord n.pc).status.toByte).goThrough vector) _
  rw [hword.status.eq]
  exact (hword.push hR.everywhere _).goThrough hR.everywhere fun _ _ => trivial

/-- A reset looks at nothing but the bus, and leaves nothing to differ. -/
theorem alike_reset (hR : Bus.Bisimulation R) (hbus : R m.bus n.bus) :
    Alike R Flag.all m.reset n.reset where
  registers r := by cases r <;> rfl
  pc := Bus.readWord_congr_of_agree fun a _ => hR.read hbus a
  status _ _ := rfl
  bus := hbus

end Machine

/-! ### Two processors over time -/

namespace Cpu

variable {σ τ : Type}

/--
Two machines that are alike, as many ticks before their next fetch, the tick total of the
second ahead of the first by `lag`.
-/
structure Alike (R : σ → τ → Prop) (seen : List Flag) (lag : UInt64) (c : Cpu σ) (c' : Cpu τ) :
    Prop where
  machine : c.machine.Alike R seen c'.machine
  remaining : c.remaining = c'.remaining
  cycles : c.cycles + lag = c'.cycles

namespace Alike

variable {R : σ → τ → Prop} {seen : List Flag} {lag : UInt64} {c : Cpu σ} {c' : Cpu τ}

/-- Processors that are alike differ in their statuses, their buses and their totals alone. -/
theorem eq_with (h : Alike R seen lag c c') :
    c' =
      { machine := { c.machine with status := c'.machine.status, bus := c'.machine.bus }
        remaining := c.remaining
        cycles := c.cycles + lag } := by
  rw [h.remaining, h.cycles, ← h.machine.eq_with]

/-- Where every bit is seen, the bus is one and neither is ahead, they are one processor. -/
theorem eq {c c' : Cpu σ} (h : Alike Eq Flag.all 0 c c') : c' = c := by
  refine h.eq_with.trans ?_
  rw [← h.machine.status.eq, ← h.machine.bus, UInt64.add_zero]

theorem ready (h : Alike R seen lag c c') : c.ready = c'.ready := by
  rw [Cpu.ready, Cpu.ready, h.remaining]

theorem idle (h : Alike R seen lag c c') : Alike R seen lag c.idle c'.idle where
  machine := h.machine
  remaining := congrArg (· - 1) h.remaining
  cycles := by
    show c.cycles + 1 + lag = c'.cycles + 1
    rw [UInt64.add_assoc, UInt64.add_comm 1, ← UInt64.add_assoc, h.cycles]

/-- Both may go on with other machines that are alike, after the same wait. -/
theorem withMachine (h : Alike R seen lag c c') {m : Machine σ} {n : Machine τ}
    (hm : m.Alike R seen n) {wait wait' : Byte} (hwait : wait = wait') :
    Alike R seen lag { c with machine := m, remaining := wait }
      { c' with machine := n, remaining := wait' } :=
  ⟨hm, hwait, h.cycles⟩

variable [Bus σ] [Bus τ] {cells : Address → Prop}

theorem decode (hR : Bus.BisimulationOn cells R) (h : Alike R seen lag c c')
    (hcells : ∀ a ∈ decodeCells c.machine.bus c.machine.pc c.machine.x, cells a) :
    Nmos6502.decode c.machine.bus c.machine.pc c.machine.x c.machine.y =
      Nmos6502.decode c'.machine.bus c'.machine.pc c'.machine.x c'.machine.y := by
  have hx : c.machine.x = c'.machine.x := h.machine.registers .x
  have hy : c.machine.y = c'.machine.y := h.machine.registers .y
  rw [decode_congr_of_agree fun a ha => hR.read h.machine.bus a (hcells a ha), h.machine.pc, hx, hy]

theorem fetches (hR : Bus.BisimulationOn cells R) (h : Alike R seen lag c c')
    (hcells : ∀ a ∈ c.reads, cells a) {d : Decoded} (hd : c.Fetches d) : c'.Fetches d where
  ready := h.ready ▸ hd.ready
  found :=
    h.decode hR (fun a ha => hcells a (mem_reads_of_mem_decodeCells hd.ready ha)) ▸ hd.found

/--
**A tick that looks at nothing unseen does the same to both**, and answers the same.  The
buses have to answer alike only in the cells that the tick looks at.
-/
theorem tick (hR : Bus.BisimulationOn cells R) (h : Alike R seen lag c c')
    (hlooks : ∀ d, c.Fetches d → ∀ f ∈ d.instruction.family.looks, f ∈ seen)
    (hcells : ∀ a ∈ c.reads, cells a) :
    c.tick.1 = c'.tick.1 ∧ Alike R seen lag c.tick.2 c'.tick.2 := by
  have hcycles : c.cycles + 1 + lag = c'.cycles + 1 := h.idle.cycles
  rcases c.busy_or_fetches with hbusy | ⟨hready, hnone⟩ | ⟨d, hd⟩
  · rw [tick_of_busy hbusy, tick_of_busy (h.ready ▸ hbusy)]
    exact ⟨rfl, h.idle⟩
  · have hdecoded : ∀ a ∈ decodeCells c.machine.bus c.machine.pc c.machine.x, cells a :=
      fun a ha => hcells a (mem_reads_of_mem_decodeCells hready ha)
    have hopcode := hR.read h.machine.bus c.machine.pc (hdecoded _ List.mem_cons_self)
    rw [tick_of_decode_none hready hnone,
      tick_of_decode_none (h.ready ▸ hready) (h.decode hR hdecoded ▸ hnone), hopcode, h.machine.pc]
    exact ⟨rfl, h.machine.withPc _, h.remaining, hcycles⟩
  · rw [tick_of_fetches hd, tick_of_fetches (h.fetches hR hcells hd)]
    have hperform := (h.machine.past d).perform hR (hlooks d hd) fun a ha =>
      hcells a (hd.mem_reads ha)
    exact ⟨rfl, hperform, rfl, hcycles⟩

/-! ### Where every bit is seen -/

theorem tick_of_bisimulation (hR : Bus.Bisimulation R) (h : Alike R Flag.all lag c c') :
    c.tick.1 = c'.tick.1 ∧ Alike R Flag.all lag c.tick.2 c'.tick.2 :=
  h.tick hR.everywhere (fun _ _ f _ => Flag.mem_all f) fun _ _ => trivial

theorem runForTicks (hR : Bus.Bisimulation R) (budget : Nat) :
    ∀ {c : Cpu σ} {c' : Cpu τ}, Alike R Flag.all lag c c' →
      (runForTicks budget c).1 = (runForTicks budget c').1 ∧
        Alike R Flag.all lag (runForTicks budget c).2 (runForTicks budget c').2 := by
  induction budget with
  | zero => intro c c' h; exact ⟨rfl, h⟩
  | succ budget ih =>
      intro c c' h
      obtain ⟨herror, hafter⟩ := h.tick_of_bisimulation hR
      rw [Cpu.runForTicks, Cpu.runForTicks]
      generalize c.tick = r at herror hafter ⊢
      generalize c'.tick = r' at herror hafter ⊢
      obtain ⟨error, d⟩ := r
      obtain ⟨error', d'⟩ := r'
      obtain rfl : error = error' := herror
      cases error with
      | none => exact ih hafter
      | some e => exact ⟨rfl, hafter⟩

theorem stepInstruction (hR : Bus.Bisimulation R) (h : Alike R Flag.all lag c c') :
    c.stepInstruction.1 = c'.stepInstruction.1 ∧
      Alike R Flag.all lag c.stepInstruction.2 c'.stepInstruction.2 := by
  obtain ⟨herror, hafter⟩ := h.tick_of_bisimulation hR
  rw [Cpu.stepInstruction, Cpu.stepInstruction]
  generalize c.tick = r at herror hafter ⊢
  generalize c'.tick = r' at herror hafter ⊢
  obtain ⟨error, d⟩ := r
  obtain ⟨error', d'⟩ := r'
  obtain rfl : error = error' := herror
  cases error with
  | none =>
      replace hafter : Alike R Flag.all lag d d' := hafter
      show (Cpu.runForTicks d.remaining.toNat d).1 = (Cpu.runForTicks d'.remaining.toNat d').1 ∧
        Alike R Flag.all lag (Cpu.runForTicks d.remaining.toNat d).2
          (Cpu.runForTicks d'.remaining.toNat d').2
      rw [hafter.remaining]
      exact hafter.runForTicks hR _
  | some e => exact ⟨rfl, hafter⟩

theorem irq (hR : Bus.Bisimulation R) (h : Alike R Flag.all lag c c') :
    Alike R Flag.all lag c.irq c'.irq := by
  have hstatus := h.machine.status.eq
  have hmasked := h.machine.withStatus (h.machine.status.set .interruptDisable true)
  unfold Cpu.irq
  rw [hstatus]
  split
  · exact h
  · exact h.withMachine (hmasked.interrupt hR irqVector) rfl

theorem disassemble (hR : Bus.Bisimulation R) (h : Alike R seen lag c c')
    (start last : Address) : c.disassemble start last = c'.disassemble start last := by
  have hx : c.machine.x = c'.machine.x := h.machine.registers .x
  have hy : c.machine.y = c'.machine.y := h.machine.registers .y
  rw [Cpu.disassemble, Cpu.disassemble, hx, hy, disassemble_congr (hR.read h.machine.bus)]

/-- **Every event is answered alike and leaves processors that are alike.** -/
theorem handle (hR : Bus.Bisimulation R) (h : Alike R Flag.all lag c c') (e : Event) :
    (c.handle e).1 = (c'.handle e).1 ∧
      Alike R Flag.all lag (c.handle e).2 (c'.handle e).2 := by
  have hset {m : Machine σ} {n : Machine τ} (hm : m.Alike R Flag.all n) :
      Alike R Flag.all lag { c with machine := m } { c' with machine := n } :=
    h.withMachine hm h.remaining
  cases e with
  | tick =>
      obtain ⟨herror, hafter⟩ := h.tick_of_bisimulation hR
      exact ⟨congrArg Answer.ofError herror, hafter⟩
  | step =>
      obtain ⟨herror, hafter⟩ := h.stepInstruction hR
      exact ⟨congrArg Answer.ofError herror, hafter⟩
  | run budget =>
      obtain ⟨herror, hafter⟩ := h.runForTicks hR budget.toNat
      exact ⟨congrArg Answer.ofError herror, hafter⟩
  | irq => exact ⟨rfl, h.irq hR⟩
  | nmi => exact ⟨rfl, h.withMachine (h.machine.interrupt hR nmiVector) rfl⟩
  | reset => exact ⟨rfl, h.withMachine (Machine.alike_reset hR h.machine.bus) rfl⟩
  | setRegister r v => exact ⟨rfl, hset (h.machine.set r v)⟩
  | setPc a => exact ⟨rfl, hset (h.machine.withPc a)⟩
  | setStatus b => exact ⟨rfl, hset (h.machine.withStatus fun _ _ => rfl)⟩
  | assignFlags mask on =>
      refine ⟨rfl, hset (h.machine.withStatus ?_)⟩
      rw [h.machine.status.eq]
      exact fun _ _ => rfl
  | write a v => exact ⟨rfl, hset (h.machine.write hR.everywhere a v)⟩
  | disassemble start last => exact ⟨congrArg Answer.listing (h.disassemble hR start last), h⟩

/-- **Every history is answered alike and leaves processors that are alike.** -/
theorem replay (hR : Bus.Bisimulation R) (es : List Event) :
    ∀ {c : Cpu σ} {c' : Cpu τ}, Alike R Flag.all lag c c' →
      (c.replay es).1 = (c'.replay es).1 ∧
        Alike R Flag.all lag (c.replay es).2 (c'.replay es).2 := by
  induction es with
  | nil => intro c c' h; exact ⟨rfl, h⟩
  | cons e es ih =>
      intro c c' h
      obtain ⟨hanswer, hnext⟩ := h.handle hR e
      obtain ⟨hanswers, hafter⟩ := ih hnext
      refine ⟨?_, hafter⟩
      show (c.handle e).1 :: _ = (c'.handle e).1 :: _
      rw [hanswer]
      exact congrArg _ hanswers

end Alike

end Cpu

end Nmos6502
