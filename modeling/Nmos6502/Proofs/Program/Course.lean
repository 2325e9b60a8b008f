/-
Programs that run from one place to another.

A course is what a proof about a program is made of: so many instructions lead from one
machine to another, and none of them fails or starts at the program's exit.  Courses are
joined end to end, `Course.trans`, and those of the rounds of a loop by an invariant that
every round carries on, `Course.rounds`.

A processor that is stepped along a course gives no error, ends in the machine at its
end and has not been at the exit before, `Course.arrives`.
-/
import Nmos6502.Proofs.Family
import Nmos6502.Proofs.Steps

namespace Nmos6502

/-- A byte of a row of cells, read by itself. -/
theorem Bus.read_of_readBytes {σ : Type} [Bus σ] {bus : σ} {a : Address} {n : Nat}
    {bytes : List Byte} (h : readBytes bus a n = bytes) (i : Nat) {b : Byte}
    (hi : bytes[i]? = some b) : read bus (a + UInt16.ofNat i) = b := by
  subst h
  obtain ⟨hlt, -⟩ := List.getElem?_eq_some_iff.mp hi
  rw [length_readBytes] at hlt
  rw [readBytes, List.getElem?_map, List.getElem?_range hlt] at hi
  exact Option.some.inj hi

namespace Machine

variable {σ : Type} [Bus σ]

/-! ### One instruction -/

section

variable {m : Machine σ} {a : Address} {opcode cycles : Byte} {i : Instruction}

/-- A step performs the instruction on the operand that its mode resolves and goes behind it. -/
theorem step_of_resolve {mode : AddressingMode} {operand : Operand} {next : Address}
    (hlookup : Opcode.lookup opcode = some ⟨i, mode, cycles⟩) (hpc : m.pc = a)
    (hopcode : Bus.read m.bus a = opcode)
    (hoperand : resolve m.bus mode (a + 1) m.x m.y = (operand, next)) :
    m.step = (.ok cycles, { m with pc := next }.perform operand i.family) := by
  subst hpc
  have hcursor := resolve_cursor m.bus mode (m.pc + 1) m.x m.y
  rw [hoperand] at hcursor
  obtain rfl : next = m.pc + 1 + UInt16.ofNat mode.operandLength := hcursor
  rw [← hopcode] at hlookup
  rw [step_of_defined hlookup, execute_eq_perform _ (Opcode.fits_of_lookup hlookup)]
  show (_, perform _ (resolve m.bus mode (m.pc + 1) m.x m.y).1 _) = _
  rw [hoperand]

/-- A step over an instruction that only reads the cell that its mode resolves. -/
theorem step_of_consume {mode : AddressingMode} {cell next : Address} {v : Byte}
    (hlookup : Opcode.lookup opcode = some ⟨i, mode, cycles⟩) (hpc : m.pc = a)
    (hopcode : Bus.read m.bus a = opcode)
    (hcell : resolve m.bus mode (a + 1) m.x m.y = (.address cell, next))
    (hv : Bus.read m.bus cell = v)
    (hi : ∀ (m : Machine σ) o, m.perform o i.family = m.consume (m.operandValue o) i.family) :
    m.step = (.ok cycles, { m with pc := next }.consume v i.family) := by
  rw [step_of_resolve hlookup hpc hopcode hcell, hi, ← hv]
  rfl

/-- A step over a branch goes by its distance, or past it. -/
theorem step_of_branch {f : Flag} {on : Bool} {distance : Byte}
    (hlookup : Opcode.lookup opcode = some ⟨i, .relative, cycles⟩)
    (hi : i.family = .branch f on) (hpc : m.pc = a) (hopcode : Bus.read m.bus a = opcode)
    (hdistance : Bus.read m.bus (a + 1) = distance) :
    m.step = (.ok cycles, { m with
      pc := a + 1 + 1 + if m.status.get f = on then signExtend distance else 0 }) := by
  have hoperand : resolve m.bus .relative (a + 1) m.x m.y =
      (.offset (signExtend distance), a + 1 + 1) := by
    rw [← hdistance]
    rfl
  rw [step_of_resolve hlookup hpc hopcode hoperand, hi]
  by_cases htaken : m.status.get f = on
  · simp only [perform, htaken, beq_self_eq_true, if_true]
  · simp only [perform, beq_iff_eq, htaken, if_false, UInt16.add_zero]

end

/-! ### Courses -/

/-- So many steps from one machine to another, none of which fails or starts at `exit`. -/
inductive Course (exit : Address) : Nat → Machine σ → Machine σ → Prop
  | refl (m : Machine σ) : Course exit 0 m m
  | head {m m' m'' : Machine σ} {cost : Byte} {k : Nat} (hpc : m.pc ≠ exit)
      (hstep : m.step = (.ok cost, m')) (hrest : Course exit k m' m'') :
      Course exit (k + 1) m m''

namespace Course

variable {exit : Address} {m m' m'' : Machine σ} {j k : Nat}

theorem trans (h : Course exit j m m') (h' : Course exit k m' m'') :
    Course exit (j + k) m m'' := by
  induction h with
  | refl m => rwa [Nat.zero_add]
  | head hpc hstep _ ih =>
      rw [Nat.add_right_comm]
      exact .head hpc hstep (ih h')

/--
**Rounds that carry an invariant on make one course.**  A round may take as many steps as
it needs; `steps` counts those before it.
-/
theorem rounds {Inv : Nat → Machine σ → Prop} (steps : Nat → Nat) {n : Nat}
    (hstart : ∃ m', Course exit (steps 0) m m' ∧ Inv 0 m')
    (hround : ∀ i < n, ∀ m', Inv i m' →
      ∃ k m'', steps (i + 1) = steps i + k ∧ Course exit k m' m'' ∧ Inv (i + 1) m'') :
    ∃ m', Course exit (steps n) m m' ∧ Inv n m' := by
  induction n with
  | zero => exact hstart
  | succ n ih =>
      obtain ⟨m', hcourse, hinv⟩ := ih fun i hi => hround i (Nat.lt_succ_of_lt hi)
      obtain ⟨k, m'', hsteps, hlast, hinv'⟩ := hround n n.lt_succ_self m' hinv
      refine ⟨m'', ?_, hinv'⟩
      rw [hsteps]
      exact hcourse.trans hlast

end Course

end Machine

/-! ### Stepping along a course -/

namespace Cpu

variable {σ : Type} [Bus σ]

/-- The processor after a number of steps. -/
def stepped (c : Cpu σ) (n : Nat) : Cpu σ := (c.replay (List.replicate n .step)).2

@[simp] theorem stepped_zero (c : Cpu σ) : c.stepped 0 = c := rfl

theorem stepped_succ (c : Cpu σ) (n : Nat) :
    c.stepped (n + 1) = c.stepInstruction.2.stepped n := by
  rw [stepped, replay_replicate_step]
  rfl

/--
Steps that lead to a machine for the first time: all of them succeed, and none of them
starts at `exit`.
-/
structure Arrives (c : Cpu σ) (exit : Address) (k : Nat) (m : Machine σ) : Prop where
  answers : (c.replay (List.replicate k .step)).1 = List.replicate k .done
  machine : (c.stepped k).machine = m
  ready : (c.stepped k).ready = true
  before : ∀ j < k, (c.stepped j).machine.pc ≠ exit

end Cpu

/-- **A processor steps along a course.** -/
theorem Machine.Course.arrives {σ : Type} [Bus σ] {exit : Address} {k : Nat} {m m' : Machine σ}
    (h : Course exit k m m') :
    ∀ {c : Cpu σ}, c.ready = true → c.machine = m → c.Arrives exit k m' := by
  induction h with
  | refl m =>
      intro c hready hc
      exact ⟨rfl, hc, hready, fun j hj => absurd hj j.not_lt_zero⟩
  | @head m m₁ m' cost k hpc hstep hrest ih =>
      intro c hready hc
      have hnext := Cpu.stepInstruction_of_step hready (hc ▸ hstep)
      obtain ⟨hanswers, hmachine, hend, hbefore⟩ := ih (c := c.stepInstruction.2)
        (by rw [hnext]; rfl) (by rw [hnext])
      refine ⟨?_, ?_, ?_, ?_⟩
      · rw [Cpu.replay_replicate_step, hanswers, hnext]
        rfl
      · rw [Cpu.stepped_succ, hmachine]
      · rw [Cpu.stepped_succ, hend]
      · intro j hj
        cases j with
        | zero =>
            rw [Cpu.stepped_zero, hc]
            exact hpc
        | succ j =>
            rw [Cpu.stepped_succ]
            exact hbefore j (Nat.lt_of_succ_lt_succ hj)

end Nmos6502
