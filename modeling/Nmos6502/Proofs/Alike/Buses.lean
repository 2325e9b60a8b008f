/-
The engine depends on the bus only through its reads and writes.

`Cpu.wiredTo` takes a processor off its bus and wires it to another.  If the two buses are
related by a `Bus.Bisimulation`, every history gets the same answers, leaves the same
registers and counters, sends the same bytes to the same addresses in the same order, and
ends on related buses, `replay_wiredTo`.

Three such relations are given here.  A device on loan stands for the owner's device, a
bus that records stands for the bus behind it, and a full memory that repeats throughout
the address space stands for a chip that has each of its cells once.
-/
import Nmos6502.Bus.Borrowed
import Nmos6502.Bus.Compact
import Nmos6502.Bus.Mapped
import Nmos6502.Bus.Recorded
import Nmos6502.Proofs.Alike.History

namespace Nmos6502

/-! ### Buses that stand for one another -/

section

variable {σ τ : Type} [Bus σ] [Bus τ]

theorem Borrowed.bisimulation :
    Bus.Bisimulation fun (bus : σ) (b : Borrowed σ) => b.device = bus where
  read h a := by
    rw [← h]
    rfl
  write h a v := by
    rw [← h]
    rfl

theorem Recorded.bisimulation :
    Bus.Bisimulation fun (r : Recorded σ) (bus : σ) => r.bus = bus where
  read h a := by
    rw [← h]
    rfl
  write h a v := by
    rw [← h]
    rfl

/-- Buses that are read alike in some cells are so while they record, and record the same. -/
theorem Bus.BisimulationOn.recorded {cells : Address → Prop} {R : σ → τ → Prop}
    (hR : Bus.BisimulationOn cells R) :
    Bus.BisimulationOn cells fun (r : Recorded σ) (r' : Recorded τ) =>
      R r.bus r'.bus ∧ r.writes = r'.writes where
  read h a ha := hR.read h.1 a ha
  write {r r'} h a v := by
    refine ⟨hR.write h.1 a v, ?_⟩
    show r.writes.push (a, v) = r'.writes.push (a, v)
    rw [h.2]

/-- Buses that stand for one another do so while they record, and record the same. -/
theorem Bus.Bisimulation.recorded {R : σ → τ → Prop} (hR : Bus.Bisimulation R) :
    Bus.Bisimulation fun (r : Recorded σ) (r' : Recorded τ) =>
      R r.bus r'.bus ∧ r.writes = r'.writes where
  read h a := hR.read h.1 a
  write := hR.everywhere.recorded.write

end

/-- Memory that repeats throughout the address space holds in every copy what a chip holds once. -/
def Compact.Mirrored {mask : Address} (board : Mapped) (chip : Compact mask) : Prop :=
  board.mask = mask ∧ board.window = none ∧ ∀ a, board.memory.get (a &&& mask) = chip.get a

theorem Compact.bisimulation (mask : Address) :
    Bus.Bisimulation (Compact.Mirrored : Mapped → Compact mask → Prop) where
  read {board chip} h a := by
    obtain ⟨hmask, -, hcells⟩ := h
    show board.memory.get (a &&& board.mask) = chip.get a
    rw [hmask, hcells]
  write {board chip} h a v := by
    obtain ⟨hmask, hwindow, hcells⟩ := h
    have hopen : board.protects a = false := by rw [Mapped.protects, hwindow]
    have hwrite : Bus.write board a v =
        { board with memory := board.memory.set (a &&& mask) v } := by
      show (if board.protects a then board else _) = _
      rw [hopen, hmask]
      rfl
    rw [hwrite]
    refine ⟨hmask, hwindow, ?_⟩
    intro a'
    show (board.memory.set (a &&& mask) v).get (a' &&& mask) = (chip.set a v).get a'
    rw [Memory.get_set, Compact.get_set, hcells]

/-! ### A processor on another bus -/

namespace Cpu

variable {σ τ : Type}

/-- The processor taken off its bus and wired to another one. -/
def wiredTo (c : Cpu σ) (bus : τ) : Cpu τ where
  machine := { c.machine with bus := bus }
  remaining := c.remaining
  cycles := c.cycles

theorem alike_wiredTo {R : σ → τ → Prop} (c : Cpu σ) {bus : τ} (h : R c.machine.bus bus) :
    Alike R Flag.all 0 c (c.wiredTo bus) where
  machine := ⟨fun r => by cases r <;> rfl, rfl, fun _ _ => rfl, h⟩
  remaining := rfl
  cycles := UInt64.add_zero _

/-- Processors that are alike, every bit seen and neither ahead, differ in their buses alone. -/
theorem Alike.eq_wiredTo {R : σ → τ → Prop} {c : Cpu σ} {c' : Cpu τ} (h : Alike R Flag.all 0 c c') :
    c' = c.wiredTo c'.machine.bus := by
  refine h.eq_with.trans ?_
  rw [← h.machine.status.eq, UInt64.add_zero]
  rfl

variable [Bus σ] [Bus τ]

theorem exists_replay_wiredTo {R : σ → τ → Prop} (hR : Bus.Bisimulation R) (c : Cpu σ) {bus : τ}
    (hbus : R c.machine.bus bus) (es : List Event) :
    ∃ bus', R (c.replay es).2.machine.bus bus' ∧
      (c.wiredTo bus).replay es = ((c.replay es).1, (c.replay es).2.wiredTo bus') := by
  obtain ⟨hanswers, hafter⟩ := (c.alike_wiredTo hbus).replay hR es
  refine ⟨((c.wiredTo bus).replay es).2.machine.bus, hafter.machine.bus, ?_⟩
  rw [← hafter.eq_wiredTo, hanswers]

/-- A processor on a bus that records does what it does on the bus behind it. -/
theorem exists_replay_wiredTo_start (c : Cpu σ) (es : List Event) :
    ∃ writes, (c.wiredTo (Recorded.start c.machine.bus)).replay es =
      ((c.replay es).1, (c.replay es).2.wiredTo ⟨(c.replay es).2.machine.bus, writes⟩) := by
  set recording := c.wiredTo (Recorded.start c.machine.bus)
  have hbehind : recording.machine.bus.bus = c.machine.bus := rfl
  obtain ⟨bus, rfl, hreplay⟩ := exists_replay_wiredTo Recorded.bisimulation recording hbehind es
  replace hreplay : c.replay es = ((recording.replay es).1, _) := hreplay
  refine ⟨(recording.replay es).2.machine.bus.writes, ?_⟩
  rw [hreplay]
  rfl

/--
**The engine depends on the bus only through its reads and writes.**  Put a processor on
a bus that a bisimulation relates to its own.  Every history then gets the same answers
and leaves the same registers and counters, on buses that are still related; at the end
of it every stretch of memory has the same listing; and had both buses recorded, one
record would tell the writes of both runs.  A device on loan and the owner's are so
related, and so are a memory that repeats throughout the address space and the chip that
has each of its cells once.
-/
theorem replay_wiredTo :
    (∀ {σ τ : Type} [Bus σ] [Bus τ] {R : σ → τ → Prop}, Bus.Bisimulation R →
      ∀ (c : Cpu σ) (bus : τ), R c.machine.bus bus → ∀ es : List Event,
        let after := (c.replay es).2
        ∃ bus' writes, R after.machine.bus bus' ∧
          (c.wiredTo bus).replay es = ((c.replay es).1, after.wiredTo bus') ∧
          (∀ start last,
            (after.wiredTo bus').disassemble start last = after.disassemble start last) ∧
          (c.wiredTo (Recorded.start c.machine.bus)).replay es =
            ((c.replay es).1, after.wiredTo ⟨after.machine.bus, writes⟩) ∧
          (c.wiredTo (Recorded.start bus)).replay es =
            ((c.replay es).1, after.wiredTo ⟨bus', writes⟩)) ∧
    (∀ {σ : Type} [Bus σ],
      Bus.Bisimulation fun (bus : σ) (b : Borrowed σ) => b.device = bus) ∧
    ∀ mask : Address, Bus.Bisimulation (Compact.Mirrored : Mapped → Compact mask → Prop) := by
  refine ⟨?_, Borrowed.bisimulation, Compact.bisimulation⟩
  intro σ τ _ _ R hR c bus hbus es after
  obtain ⟨bus', hbus', hwired⟩ := exists_replay_wiredTo hR c hbus es
  obtain ⟨writes, hwrites⟩ := c.exists_replay_wiredTo_start es
  obtain ⟨writes', hwrites'⟩ := (c.wiredTo bus).exists_replay_wiredTo_start es
  -- The two records are those of one run on related buses that record.
  have hstart : R (Recorded.start c.machine.bus).bus (Recorded.start bus).bus ∧
      (Recorded.start c.machine.bus).writes = (Recorded.start bus).writes := ⟨hbus, rfl⟩
  obtain ⟨r, ⟨-, hrecord⟩, hboth⟩ :=
    exists_replay_wiredTo hR.recorded (c.wiredTo (Recorded.start c.machine.bus)) hstart es
  rw [hwired] at hwrites'
  rw [hwrites] at hrecord hboth
  have hr : r = ⟨bus', writes'⟩ := congrArg (·.2.machine.bus) (hboth.symm.trans hwrites')
  have hsame : writes = writes' := hrecord.trans (congrArg Recorded.writes hr)
  refine ⟨bus', writes, hbus', hwired, ?_, hwrites, ?_⟩
  · intro start last
    exact ((after.alike_wiredTo hbus').disassemble hR start last).symm
  · rw [hsame]
    exact hwrites'

/--
In a single page that repeats, the stack runs into the vectors: the interrupt leaves its
word in the cells of the vector that it then goes through.
-/
theorem replay_wiredTo_mirrored :
    let board : Mapped := { memory := Memory.zero, mask := 0x00FF, window := none }
    let c := (new board).setRegister .sp 0xFB
    Compact.Mirrored board (Compact.zero : Compact 0x00FF) ∧
    ((c.wiredTo (Compact.zero : Compact 0x00FF)).replay
        [.setPc 0x1234, .nmi, .run 20, .disassemble 0xFFF0 0xFFFF]).1 =
      (c.replay [.setPc 0x1234, .nmi, .run 20, .disassemble 0xFFF0 0xFFFF]).1 ∧
    ((c.wiredTo (Compact.zero : Compact 0x00FF)).replay [.setPc 0x1234, .nmi]).2.machine.pc =
      0x1234 := by
  intro board c
  have hmirrored : Compact.Mirrored board (Compact.zero : Compact 0x00FF) :=
    ⟨rfl, rfl, fun a => by rw [Compact.get_zero]; exact Memory.get_zero _⟩
  obtain ⟨hreplay, -, hbisimulation⟩ := replay_wiredTo
  obtain ⟨_, _, -, hanswers, -⟩ := hreplay (hbisimulation 0x00FF) c Compact.zero hmirrored
    [.setPc 0x1234, .nmi, .run 20, .disassemble 0xFFF0 0xFFFF]
  obtain ⟨_, _, -, hafter, -⟩ := hreplay (hbisimulation 0x00FF) c Compact.zero hmirrored
    [.setPc 0x1234, .nmi]
  refine ⟨hmirrored, congrArg Prod.fst hanswers, ?_⟩
  rw [hafter]
  show (c.setPc 0x1234).nmi.machine.pc = 0x1234
  decide

end Cpu

end Nmos6502
