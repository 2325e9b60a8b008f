/-
How many ticks a step takes.

A step ticks once and goes on ticking until the processor is ready, and nothing in that
loop bounds it.  `StepsIn` is the loop as it stands, with its ticks counted; it ends all
the same, since only the first tick can fetch: every later one finds the processor busy
and takes one off the countdown.  The induction is on the countdown,
`countdown_induction`.

A step that fetches therefore takes the base cost of the instruction and one tick more,
whatever the instruction does, and a run of steps takes the sum of these, whatever
program runs and however it changes itself.
-/
import Nmos6502.Proofs.Break
import Nmos6502.Proofs.Ticks

namespace Nmos6502

namespace Cpu

variable {σ : Type}

/-! ### The countdown -/

theorem remaining_eq_zero {c : Cpu σ} (h : c.ready = true) : c.remaining = 0 :=
  eq_of_beq h

theorem ready_of_remaining {c : Cpu σ} (h : c.remaining.toNat = 0) : c.ready = true :=
  beq_iff_eq.mpr (UInt8.toNat_inj.mp h)

/-- A busy tick is one of those that remain. -/
theorem toNat_remaining_of_busy {c : Cpu σ} (h : c.ready = false) :
    c.remaining.toNat = c.idle.remaining.toNat + 1 := by
  have hpos : c.remaining.toNat ≠ 0 := fun hzero => by
    rw [ready_of_remaining hzero] at h
    exact absurd h (by decide)
  rw [toNat_remaining_idle h]
  omega

/-- What holds of a ready processor, and of a busy one if after its tick, holds of all. -/
theorem countdown_induction {P : Cpu σ → Prop} (hready : ∀ c, c.ready = true → P c)
    (hbusy : ∀ c, c.ready = false → P c.idle → P c) (c : Cpu σ) : P c := by
  generalize hn : c.remaining.toNat = n
  induction n generalizing c with
  | zero => exact hready c (ready_of_remaining hn)
  | succ n ih =>
      have hc : c.ready = false := ready_eq_false (by omega)
      have hidle := toNat_remaining_of_busy hc
      exact hbusy c hc (ih c.idle (by omega))

variable [Bus σ]

/-! ### The loop and its ticks -/

/--
Ticking until the processor is ready, or a tick fails: how many ticks that takes, the
error and the processor afterwards.
-/
inductive FinishesIn : Cpu σ → Nat → Option IllegalOpcode × Cpu σ → Prop
  | done {c : Cpu σ} (hready : c.ready = true) : FinishesIn c 0 (none, c)
  | failed {c c' : Cpu σ} {e : IllegalOpcode} (hbusy : c.ready = false)
      (htick : c.tick = (some e, c')) : FinishesIn c 1 (some e, c')
  | again {c c' : Cpu σ} {k : Nat} {r : Option IllegalOpcode × Cpu σ} (hbusy : c.ready = false)
      (htick : c.tick = (none, c')) (hrest : FinishesIn c' k r) : FinishesIn c (k + 1) r

/-- Ticking once, and then until the processor is ready, unless a tick fails. -/
inductive StepsIn (c : Cpu σ) : Nat → Option IllegalOpcode × Cpu σ → Prop
  | failed {c' : Cpu σ} {e : IllegalOpcode} (htick : c.tick = (some e, c')) :
      StepsIn c 1 (some e, c')
  | finished {c' : Cpu σ} {k : Nat} {r : Option IllegalOpcode × Cpu σ}
      (htick : c.tick = (none, c')) (hrest : c'.FinishesIn k r) : StepsIn c (k + 1) r

/-- The loop ends, after the ticks that remain. -/
theorem finishesIn_remaining (c : Cpu σ) :
    c.FinishesIn c.remaining.toNat (runForTicks c.remaining.toNat c) := by
  refine countdown_induction (P := fun c => c.FinishesIn c.remaining.toNat
    (runForTicks c.remaining.toNat c)) ?_ ?_ c
  · intro c hready
    rw [remaining_eq_zero hready]
    exact .done hready
  · intro c hbusy ih
    rw [toNat_remaining_of_busy hbusy, runForTicks, tick_of_busy hbusy]
    exact .again hbusy (tick_of_busy hbusy) ih

/-- The loop ends in no other way. -/
theorem FinishesIn.eq {c : Cpu σ} {k : Nat} {r : Option IllegalOpcode × Cpu σ}
    (h : c.FinishesIn k r) : k = c.remaining.toNat ∧ r = runForTicks c.remaining.toNat c := by
  induction h with
  | done hready =>
      rw [remaining_eq_zero hready]
      exact ⟨rfl, rfl⟩
  | failed hbusy htick =>
      rw [tick_of_busy hbusy] at htick
      exact absurd (congrArg Prod.fst htick) (by simp)
  | again hbusy htick hrest ih =>
      rw [tick_of_busy hbusy] at htick
      obtain rfl := (Prod.mk.inj htick).2
      rw [toNat_remaining_of_busy hbusy, runForTicks, tick_of_busy hbusy]
      exact ⟨congrArg (· + 1) ih.1, ih.2⟩

theorem runLength_remaining (c : Cpu σ) :
    runLength c.remaining.toNat c = c.remaining.toNat := by
  refine countdown_induction (P := fun c => runLength c.remaining.toNat c = c.remaining.toNat)
    ?_ ?_ c
  · intro c hready
    rw [remaining_eq_zero hready]
    rfl
  · intro c hbusy ih
    rw [toNat_remaining_of_busy hbusy, runLength, tick_of_busy hbusy]
    exact congrArg (· + 1) ih

/-- **The loop ends in one way only**, which is that of the step. -/
theorem stepsIn_iff {c : Cpu σ} {k : Nat} {r : Option IllegalOpcode × Cpu σ} :
    c.StepsIn k r ↔ k = c.stepLength ∧ r = c.stepInstruction := by
  rw [stepLength, stepInstruction]
  constructor
  · intro h
    cases h with
    | failed htick =>
        rw [htick]
        exact ⟨rfl, rfl⟩
    | finished htick hrest =>
        obtain ⟨hk, hr⟩ := hrest.eq
        rw [htick]
        exact ⟨congrArg (· + 1) (hk.trans (runLength_remaining _).symm), hr⟩
  · rintro ⟨rfl, rfl⟩
    rcases htick : c.tick with ⟨_ | e, c'⟩
    · show c.StepsIn (runLength _ c' + 1) _
      rw [runLength_remaining]
      exact .finished htick (finishesIn_remaining c')
    · exact .failed htick

theorem StepsIn.stepInstruction_eq {c : Cpu σ} {k : Nat} {r : Option IllegalOpcode × Cpu σ}
    (h : c.StepsIn k r) : c.stepInstruction = r :=
  (stepsIn_iff.mp h).2.symm

/-! ### One step -/

theorem stepsIn_of_busy {c : Cpu σ} (h : c.ready = false) :
    c.StepsIn c.remaining.toNat
      (none, { c with remaining := 0, cycles := c.cycles + c.remaining.toUInt64 }) := by
  have hrest := finishesIn_remaining c.idle
  have hall := runForTicks_remaining c
  rw [toNat_remaining_of_busy h, runForTicks, tick_of_busy h] at hall
  rw [toNat_remaining_of_busy h, ← hall]
  exact .finished (tick_of_busy h) hrest

theorem stepsIn_of_defined {c : Cpu σ} {entry : Opcode} (hready : c.ready = true)
    (h : Opcode.lookup (Bus.read c.machine.bus c.machine.pc) = some entry) :
    c.StepsIn (entry.cycles.toNat + 1) (none,
      { machine := { c.machine with pc := c.machine.pc + 1 }.execute entry.instruction entry.mode
        remaining := 0
        cycles := c.cycles + 1 + entry.cycles.toUInt64 }) := by
  have htick := tick_of_ready hready
  rw [fetch, Machine.step_of_defined h] at htick
  refine .finished htick ?_
  have hrest := finishesIn_remaining c.tick.2
  rw [runForTicks_remaining, htick] at hrest
  exact hrest

theorem stepsIn_of_undefined {c : Cpu σ} (hready : c.ready = true)
    (h : Opcode.lookup (Bus.read c.machine.bus c.machine.pc) = none) :
    c.StepsIn 1 (some ⟨Bus.read c.machine.bus c.machine.pc, c.machine.pc⟩,
      { machine := { c.machine with pc := c.machine.pc + 1 }
        remaining := 0
        cycles := c.cycles + 1 }) := by
  have htick := tick_of_ready hready
  rw [fetch, Machine.step_of_undefined h] at htick
  exact .failed htick

/-! ### A run of steps -/

theorem replay_replicate_step (c : Cpu σ) (n : Nat) :
    c.replay (List.replicate (n + 1) .step) =
      (Answer.ofError c.stepInstruction.1 ::
        (c.stepInstruction.2.replay (List.replicate n .step)).1,
        (c.stepInstruction.2.replay (List.replicate n .step)).2) :=
  rfl

/--
From one processor to another in as many steps as there are entries, each of which
executes the entry's instruction.
-/
inductive Runs : Cpu σ → List Opcode → Cpu σ → Prop
  | nil (c : Cpu σ) : Runs c [] c
  | cons {c c' : Cpu σ} {entry : Opcode} {entries : List Opcode} (hready : c.ready = true)
      (hfound : Opcode.lookup (Bus.read c.machine.bus c.machine.pc) = some entry)
      (hrest : Runs c.stepInstruction.2 entries c') : Runs c (entry :: entries) c'

/-- The first instruction is the one that the processor is at. -/
theorem Runs.lookup_head {c c' : Cpu σ} {entry : Opcode} {entries : List Opcode}
    (h : c.Runs (entry :: entries) c') :
    Opcode.lookup (Bus.read c.machine.bus c.machine.pc) = some entry := by
  cases h with
  | cons _ hfound _ => exact hfound

/-- The ticks that instructions take: the base cost of each, and the one that fetches it. -/
def ticksOf : List Opcode → Nat
  | [] => 0
  | entry :: entries => entry.cycles.toNat + 1 + ticksOf entries

/-- **The tick total moves by what the instructions take**, as far as it can count. -/
theorem Runs.cycles {c c' : Cpu σ} {entries : List Opcode} (h : c.Runs entries c') :
    c'.cycles = c.cycles + UInt64.ofNat (ticksOf entries) := by
  induction h with
  | nil c => exact (UInt64.add_zero _).symm
  | @cons c c' entry entries hready hfound hrest ih =>
      have hstep := (stepsIn_of_defined hready hfound).stepInstruction_eq
      have hcost : UInt64.ofNat (ticksOf (entry :: entries)) =
          1 + entry.cycles.toUInt64 + UInt64.ofNat (ticksOf entries) := by
        rw [ticksOf, UInt64.ofNat_add, UInt64.ofNat_add, UInt64.ofNat_uInt8ToNat,
          UInt64.add_comm entry.cycles.toUInt64]
        rfl
      rw [ih, hstep, hcost, ← UInt64.add_assoc, ← UInt64.add_assoc]

/-- **Steps that succeed execute one instruction each**, from a ready processor on. -/
theorem exists_runs (n : Nat) : ∀ {c : Cpu σ}, c.ready = true →
    (∀ answer ∈ (c.replay (List.replicate n .step)).1, answer = .done) →
      ∃ entries, entries.length = n ∧
        c.Runs entries (c.replay (List.replicate n .step)).2 := by
  induction n with
  | zero =>
      intro c _ _
      exact ⟨[], rfl, .nil c⟩
  | succ n ih =>
      intro c hready hdone
      rw [replay_replicate_step, List.forall_mem_cons] at hdone
      obtain ⟨hfirst, hdone⟩ := hdone
      cases hfound : Opcode.lookup (Bus.read c.machine.bus c.machine.pc) with
      | none =>
          rw [(stepsIn_of_undefined hready hfound).stepInstruction_eq] at hfirst
          exact absurd hfirst (by simp [Answer.ofError])
      | some entry =>
          have hnext : c.stepInstruction.2.ready = true := by
            rw [(stepsIn_of_defined hready hfound).stepInstruction_eq]
            rfl
          obtain ⟨entries, hlength, hrun⟩ := ih hnext hdone
          exact ⟨entry :: entries, congrArg (· + 1) hlength, .cons hready hfound hrun⟩

/-! ### The ticks of a step -/

/--
**A step takes a known number of ticks.**  The loop of a step ends in one way, from every
state.  A busy processor takes the ticks that remain and does nothing but count.  A ready
one takes the base cost of the instruction that it finds and one tick more, executes it
and is ready again; on a byte that names no instruction it takes the one tick that
reports it and is ready.  So after the first of `n + 1` successful steps of a new
processor, which ends the reset, `n` instructions have been executed, and the tick total
is 6 and what they take.
-/
theorem stepInstruction_ticks :
    (∀ (c : Cpu σ) k r, c.StepsIn k r ↔ k = c.stepLength ∧ r = c.stepInstruction) ∧
    (∀ c : Cpu σ, c.ready = false →
      c.StepsIn c.remaining.toNat
        (none, { c with remaining := 0, cycles := c.cycles + c.remaining.toUInt64 })) ∧
    (∀ (c : Cpu σ) entry, c.ready = true →
      Opcode.lookup (Bus.read c.machine.bus c.machine.pc) = some entry →
      c.StepsIn (entry.cycles.toNat + 1) (none,
        { machine := { c.machine with pc := c.machine.pc + 1 }.execute entry.instruction entry.mode
          remaining := 0
          cycles := c.cycles + 1 + entry.cycles.toUInt64 })) ∧
    (∀ c : Cpu σ, c.ready = true →
      Opcode.lookup (Bus.read c.machine.bus c.machine.pc) = none →
      c.StepsIn 1 (some ⟨Bus.read c.machine.bus c.machine.pc, c.machine.pc⟩,
        { machine := { c.machine with pc := c.machine.pc + 1 }
          remaining := 0
          cycles := c.cycles + 1 })) ∧
    ∀ (bus : σ) n, let steps := (new bus).replay (List.replicate (n + 1) .step)
      (∀ answer ∈ steps.1, answer = .done) →
        ∃ entries, entries.length = n ∧ (new bus).stepInstruction.2.Runs entries steps.2 ∧
          steps.2.cycles = UInt64.ofNat (6 + ticksOf entries) := by
  refine ⟨fun _ _ _ => stepsIn_iff, fun _ => stepsIn_of_busy, fun _ _ => stepsIn_of_defined,
    fun _ => stepsIn_of_undefined, ?_⟩
  intro bus n steps hdone
  -- The first step only counts the reset down.
  have hbusy : (new bus).ready = false := rfl
  have hfirst := (stepsIn_of_busy hbusy).stepInstruction_eq
  have hready : (new bus).stepInstruction.2.ready = true := by
    rw [hfirst]
    rfl
  have htotal : (new bus).stepInstruction.2.cycles = 6 := by
    rw [hfirst]
    rfl
  obtain ⟨entries, hlength, hrun⟩ :=
    exists_runs n hready fun answer h => hdone answer (List.mem_cons_of_mem _ h)
  refine ⟨entries, hlength, hrun, ?_⟩
  rw [UInt64.ofNat_add]
  exact hrun.cycles.trans (congrArg (· + _) htotal)

/--
Cleared memory is full of `BRK`, and the first one leaves `$0002` to come back to on the
stack; `lost` finds a byte that names nothing instead.
-/
theorem stepInstruction_ticks_clearedMemory :
    let busy := new Memory.zero
    let idle : Cpu Memory := { busy with remaining := 0, cycles := 6 }
    let lost := idle.mapBus fun bus => bus.set 0 0x02
    (busy.ready = false ∧ busy.stepLength = 6 ∧ busy.stepInstruction = (none, idle)) ∧
    (idle.ready = true ∧ idle.stepLength = 8 ∧ idle.stepInstruction.1 = none ∧
      idle.stepInstruction.2.machine.sp = 0xFC ∧
      idle.stepInstruction.2.machine.bus.get 0x01FE = 0x02) ∧
    (lost.ready = true ∧ lost.stepLength = 1 ∧ lost.stepInstruction.1 = some ⟨0x02, 0⟩) ∧
    (∀ answer ∈ (busy.replay (List.replicate 2 .step)).1, answer = .done) ∧
    (busy.replay (List.replicate 2 .step)).2.cycles = 14 := by
  intro busy idle lost
  obtain ⟨hexact, hbusy, hdefined, hundefined, hrun⟩ := stepInstruction_ticks (σ := Memory)
  have hpc : idle.machine.pc = 0 := by
    show Bus.readWord Memory.zero resetVector = 0
    simp [Bus.readWord, wordOf]
  have hsp : idle.machine.sp = 0xFF := rfl
  have hcell : Bus.read idle.machine.bus idle.machine.pc = 0 := Memory.get_zero _
  have hbrk : Opcode.lookup (Bus.read idle.machine.bus idle.machine.pc) =
      some ⟨.brk, .implied, 7⟩ := by
    rw [hcell]
    decide +kernel
  have hillegal : Bus.read lost.machine.bus lost.machine.pc = 0x02 := by
    show (Memory.zero.set 0 0x02).get idle.machine.pc = 0x02
    rw [hpc, Memory.get_set_self]
  have hnone : Opcode.lookup (Bus.read lost.machine.bus lost.machine.pc) = none := by
    rw [hillegal]
    decide +kernel
  obtain ⟨hsix, hfirst⟩ := (hexact busy _ _).mp (hbusy busy rfl)
  obtain ⟨height, hsecond⟩ := (hexact idle _ _).mp (hdefined idle _ rfl hbrk)
  obtain ⟨hone, hreported⟩ := (hexact lost _ _).mp (hundefined lost rfl hnone)
  have hidle : busy.stepInstruction = (none, idle) := hfirst.symm
  have hbroken : idle.stepInstruction.2.machine =
      { idle.machine with pc := idle.machine.pc + 1 }.breakProgram :=
    (congrArg (·.2.machine) hsecond).symm
  have hdone : ∀ answer ∈ (busy.replay (List.replicate 2 .step)).1, answer = .done := by
    rw [replay_replicate_step, replay_replicate_step, hidle, ← hsecond]
    decide
  refine ⟨⟨rfl, hsix.symm, hidle⟩, ⟨rfl, height.symm, ?_, ?_, ?_⟩, ⟨rfl, hone.symm, ?_⟩, hdone,
    ?_⟩
  · rw [← hsecond]
  · rw [hbroken, Machine.breakProgram_eq, Machine.enterHandler_eq]
    show idle.machine.sp - 3 = 0xFC
    rw [hsp]
    decide
  · have hplace : Machine.stackCell (idle.machine.sp - 1) = 0x01FE := by
      rw [hsp]
      decide
    have hback : lowByte (idle.machine.pc + 1 + 1) = 0x02 := by
      rw [hpc]
      decide
    rw [hbroken, Machine.breakProgram_eq]
    exact (congrArg (Memory.get _) hplace.symm).trans
      ((Machine.get_enterHandler _ _ _).2.1.trans hback)
  · rw [← hreported, hillegal]
    exact congrArg (fun pc => some (IllegalOpcode.mk 0x02 pc)) hpc
  · obtain ⟨entries, hlength, hexecuted, htotal⟩ := hrun Memory.zero 1 hdone
    obtain ⟨entry, rfl⟩ := List.length_eq_one_iff.mp hlength
    have hfound := hexecuted.lookup_head
    rw [show (new Memory.zero).stepInstruction = (none, idle) from hidle, hbrk] at hfound
    obtain rfl := Option.some.inj hfound
    rw [htotal]
    decide

end Cpu

end Nmos6502
