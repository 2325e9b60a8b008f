/-
What a budget of ticks is used for.

A row of ticks goes on whatever its ticks report, and `Cpu.ticked` is the processor that
it leaves.  A budget stops early, at the first tick that fails.  So a budget comes to the
row of all its ticks if none of them fails, and else to the row that ends with the first
that does, which `FailsAt` names.  Both are inductions on the budget, one tick at a time.

A step is a budget too, the one of its `stepLength`.  Budgets add up as long as none of
them ends in an error, and a run of steps is therefore the budget of all its ticks.
-/
import Nmos6502.Proofs.Steps

namespace Nmos6502

namespace Cpu

variable {σ : Type} [Bus σ]

/-! ### Rows of ticks and the first that fails -/

/-- The processor after a number of ticks, whatever they report. -/
def ticked (c : Cpu σ) (n : Nat) : Cpu σ := (c.replay (List.replicate n .tick)).2

/-- Every tick counts, one that fails too. -/
theorem cycles_ticked (c : Cpu σ) (n : Nat) : (c.ticked n).cycles = c.cycles + UInt64.ofNat n := by
  have helem : ∀ e ∈ List.replicate n Event.tick, e.elementary = true := by
    intro e he
    rw [List.eq_of_mem_replicate he]
    rfl
  rw [ticked, cycles_replay_of_elementary helem, List.count_replicate_self]

/-- None of the first `n` ticks fails. -/
def Quiet (c : Cpu σ) (n : Nat) : Prop := ∀ k < n, (c.ticked k).tick.1 = none

/-- The tick after `k` others reports the error, and is the first that reports one. -/
structure FailsAt (c : Cpu σ) (k : Nat) (e : IllegalOpcode) : Prop where
  before : c.Quiet k
  reports : (c.ticked k).tick.1 = some e

theorem quiet_succ {c : Cpu σ} {n : Nat} :
    c.Quiet (n + 1) ↔ c.tick.1 = none ∧ c.tick.2.Quiet n := by
  constructor
  · intro h
    exact ⟨h 0 (Nat.succ_pos n), fun k hk => h (k + 1) (Nat.succ_lt_succ hk)⟩
  · rintro ⟨hfirst, hrest⟩ k hk
    cases k with
    | zero => exact hfirst
    | succ k => exact hrest k (Nat.lt_of_succ_lt_succ hk)

/-- A row of ticks is quiet, or one of its ticks is the first to fail. -/
theorem quiet_or_failsAt (c : Cpu σ) (n : Nat) : c.Quiet n ∨ ∃ k < n, ∃ e, c.FailsAt k e := by
  induction n with
  | zero => exact Or.inl fun k hk => absurd hk (Nat.not_lt_zero k)
  | succ n ih =>
      rcases ih with hquiet | ⟨k, hk, e, hfails⟩
      · cases hlast : (c.ticked n).tick.1 with
        | some e => exact Or.inr ⟨n, Nat.lt_succ_self n, e, hquiet, hlast⟩
        | none =>
            refine Or.inl fun k hk => ?_
            rcases Nat.lt_succ_iff_lt_or_eq.mp hk with hlt | rfl
            · exact hquiet k hlt
            · exact hlast
      · exact Or.inr ⟨k, Nat.lt_succ_of_lt hk, e, hfails⟩

/-! ### What a budget comes to -/

/-- A budget on which no tick fails is used up. -/
theorem runForTicks_of_quiet {n : Nat} :
    ∀ {c : Cpu σ}, c.Quiet n → runForTicks n c = (none, c.ticked n) := by
  induction n with
  | zero => intro c _; rfl
  | succ n ih =>
      intro c hquiet
      obtain ⟨hfirst, hrest⟩ := quiet_succ.mp hquiet
      have htick : c.tick = (none, c.tick.2) := Prod.ext hfirst rfl
      rw [runForTicks, htick]
      exact ih hrest

/-- The first tick that fails ends the budget. -/
theorem runForTicks_of_failsAt {k : Nat} {e : IllegalOpcode} :
    ∀ {n : Nat} {c : Cpu σ}, c.FailsAt k e → k < n →
      runForTicks n c = (some e, c.ticked (k + 1)) := by
  induction k with
  | zero =>
      intro n c hfails hk
      obtain ⟨n, rfl⟩ := Nat.exists_eq_add_one.mpr hk
      have htick : c.tick = (some e, c.tick.2) := Prod.ext hfails.reports rfl
      rw [runForTicks, htick]
      rfl
  | succ k ih =>
      intro n c hfails hk
      obtain ⟨n, rfl⟩ := Nat.exists_eq_add_one.mpr (Nat.lt_of_le_of_lt (Nat.zero_le _) hk)
      obtain ⟨hfirst, hrest⟩ := quiet_succ.mp hfails.before
      have htick : c.tick = (none, c.tick.2) := Prod.ext hfirst rfl
      rw [runForTicks, htick]
      exact ih ⟨hrest, hfails.reports⟩ (Nat.lt_of_succ_lt_succ hk)

theorem runForTicks_eq_none_iff (c : Cpu σ) (n : Nat) :
    (runForTicks n c).1 = none ↔ c.Quiet n := by
  constructor
  · intro hnone
    rcases c.quiet_or_failsAt n with hquiet | ⟨k, hk, e, hfails⟩
    · exact hquiet
    · rw [runForTicks_of_failsAt hfails hk] at hnone
      exact absurd hnone (by simp)
  · intro hquiet
    rw [runForTicks_of_quiet hquiet]

/-- **Budgets add up**, unless the first of them ends in an error. -/
theorem runForTicks_add (n k : Nat) (c : Cpu σ) :
    runForTicks (n + k) c =
      match runForTicks n c with
      | (none, c') => runForTicks k c'
      | (some e, c') => (some e, c') := by
  induction n generalizing c with
  | zero => rw [Nat.zero_add, runForTicks]
  | succ n ih =>
      rw [Nat.succ_add, runForTicks, runForTicks]
      rcases c.tick with ⟨_ | e, c'⟩
      · exact ih c'
      · rfl

/-! ### A run of steps as a budget -/

/-- A step is the budget of its ticks. -/
theorem stepInstruction_eq_runForTicks (c : Cpu σ) :
    c.stepInstruction = runForTicks c.stepLength c := by
  rw [stepInstruction, stepLength]
  rcases htick : c.tick with ⟨_ | e, c'⟩
  · show runForTicks c'.remaining.toNat c' = runForTicks (runLength c'.remaining.toNat c' + 1) c
    rw [runLength_remaining, runForTicks, htick]
  · show _ = runForTicks 1 c
    rw [runForTicks, htick]

/-- **A run of steps is the budget of all its ticks.** -/
theorem Runs.runForTicks_ticksOf {c c' : Cpu σ} {entries : List Opcode} (h : c.Runs entries c') :
    runForTicks (ticksOf entries) c = (none, c') := by
  induction h with
  | nil c => rfl
  | cons hready hfound hrest ih =>
      obtain ⟨hlength, hstep⟩ := stepsIn_iff.mp (stepsIn_of_defined hready hfound)
      rw [ticksOf, hlength, runForTicks_add, ← stepInstruction_eq_runForTicks, ← hstep]
      rw [← hstep] at ih
      exact ih

/--
**What a budget of ticks comes to**, for every number of ticks and from every state.  A
budget is the budget of its first part, followed, if that part ends without an error, by
the budget of the rest.  It ends without an error exactly if none of its ticks fails, and
then it is all its ticks and the tick total has moved by as many.  Else it reports the
error of the first tick that fails and is the ticks up to and with that one, which is
counted.  From a ready processor, steps that all succeed execute one instruction each,
and the budget of the base costs and one tick more for each of them leaves the processor
that the steps leave.
-/
theorem runForTicks_outcome (c : Cpu σ) :
    (∀ b₁ b₂, runForTicks (b₁ + b₂) c =
      match runForTicks b₁ c with
      | (none, c') => runForTicks b₂ c'
      | (some e, c') => (some e, c')) ∧
    (∀ b, (runForTicks b c).1 = none ↔ c.Quiet b) ∧
    (∀ b, (runForTicks b c).1 = none →
      (runForTicks b c).2 = c.ticked b ∧
      (runForTicks b c).2.cycles = c.cycles + UInt64.ofNat b) ∧
    (∀ b e, (runForTicks b c).1 = some e → ∃ k < b, c.FailsAt k e ∧
      (runForTicks b c).2 = c.ticked (k + 1) ∧
      (runForTicks b c).2.cycles = c.cycles + UInt64.ofNat (k + 1)) ∧
    ∀ n, let steps := c.replay (List.replicate n .step)
      c.ready = true → (∀ answer ∈ steps.1, answer = .done) →
        ∃ entries, entries.length = n ∧ c.Runs entries steps.2 ∧
          runForTicks (ticksOf entries) c = (none, steps.2) := by
  refine ⟨fun b₁ b₂ => runForTicks_add b₁ b₂ c, c.runForTicks_eq_none_iff, ?_, ?_, ?_⟩
  · intro b hnone
    rw [runForTicks_of_quiet ((c.runForTicks_eq_none_iff b).mp hnone)]
    exact ⟨rfl, c.cycles_ticked b⟩
  · intro b e hsome
    rcases c.quiet_or_failsAt b with hquiet | ⟨k, hk, e', hfails⟩
    · rw [runForTicks_of_quiet hquiet] at hsome
      exact absurd hsome (by simp)
    · rw [runForTicks_of_failsAt hfails hk] at hsome ⊢
      obtain rfl : e' = e := Option.some.inj hsome
      exact ⟨k, hk, hfails, rfl, c.cycles_ticked (k + 1)⟩
  · intro n steps hready hdone
    obtain ⟨entries, hlength, hrun⟩ := exists_runs n hready hdone
    exact ⟨entries, hlength, hrun, hrun.runForTicks_ticksOf⟩

/-- A processor about to do nothing and then find a byte that names no instruction. -/
def stumbling : Cpu Memory where
  machine := { Machine.blank (Memory.zero.load [0xEA, 0x02] 0x0200) with pc := 0x0200 }
  remaining := 0
  cycles := 0

/-- The three ticks of the instruction, and the budget that the fourth tick ends. -/
theorem runForTicks_outcome_stumbling :
    stumbling.ready = true ∧
    (∀ answer ∈ (stumbling.replay (List.replicate 1 .step)).1, answer = .done) ∧
    runForTicks 3 stumbling = (none, stumbling.stepInstruction.2) ∧
    (runForTicks 100 stumbling).1 = some ⟨0x02, 0x0201⟩ ∧
    (runForTicks 100 stumbling).2.cycles = 4 ∧
    ∃ k < 100, stumbling.FailsAt k ⟨0x02, 0x0201⟩ ∧
      (runForTicks 100 stumbling).2 = stumbling.ticked (k + 1) := by
  obtain ⟨hadd, -, -, hfailed, hsteps⟩ := runForTicks_outcome stumbling
  have hnop : Opcode.lookup (Bus.read stumbling.machine.bus stumbling.machine.pc) =
      some ⟨.nop, .implied, 2⟩ := by
    have hcell : Bus.read stumbling.machine.bus 0x0200 = 0xEA := by
      simp [stumbling, Machine.blank, Memory.get_set]
    rw [show stumbling.machine.pc = 0x0200 from rfl, hcell]
    decide +kernel
  have hstep := (stepsIn_of_defined rfl hnop).stepInstruction_eq
  have hdone : ∀ answer ∈ (stumbling.replay (List.replicate 1 .step)).1, answer = .done := by
    rw [replay_replicate_step, hstep]
    decide
  -- The one step is the budget of three ticks.
  obtain ⟨entries, hlength, hrun, hbudget⟩ := hsteps 1 rfl hdone
  obtain ⟨entry, rfl⟩ := List.length_eq_one_iff.mp hlength
  obtain rfl := Option.some.inj (hrun.lookup_head.symm.trans hnop)
  replace hbudget : runForTicks 3 stumbling = (none, stumbling.stepInstruction.2) := hbudget
  -- The next tick finds the byte that names nothing.
  have hbyte : Bus.read stumbling.stepInstruction.2.machine.bus
      stumbling.stepInstruction.2.machine.pc = 0x02 := by
    rw [hstep]
    show stumbling.machine.bus.get 0x0201 = 0x02
    simp [stumbling, Machine.blank]
  have hlost : stumbling.stepInstruction.2.tick =
      (some ⟨0x02, 0x0201⟩, stumbling.stepInstruction.2.tick.2) := by
    have hnone : Opcode.lookup (Bus.read stumbling.stepInstruction.2.machine.bus
        stumbling.stepInstruction.2.machine.pc) = none := by
      rw [hbyte]
      decide +kernel
    have hready : stumbling.stepInstruction.2.ready = true := by
      rw [hstep]
      rfl
    refine Prod.ext ?_ rfl
    rw [tick_of_ready hready, fetch, Machine.step_of_undefined hnone, hbyte, hstep]
    rfl
  have hlong : runForTicks 100 stumbling =
      (some ⟨0x02, 0x0201⟩, stumbling.stepInstruction.2.tick.2) := by
    rw [hadd 3 97, hbudget]
    show runForTicks 97 stumbling.stepInstruction.2 = _
    rw [runForTicks, hlost]
  obtain ⟨k, hk, hfails, hlast, -⟩ := hfailed 100 _ (congrArg Prod.fst hlong)
  refine ⟨rfl, hdone, hbudget, congrArg Prod.fst hlong, ?_, k, hk, hfails, hlast⟩
  rw [hlong, cycles_tick, hstep]
  rfl

end Cpu

end Nmos6502
