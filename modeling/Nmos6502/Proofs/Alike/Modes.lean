/-
The interrupt-disable, decimal and break bits never steer execution.

Branches look at the four bits that results decide, and the arithmetic unit at one of
them, so a machine goes on the same whatever its three mode bits are.  They get out in a
pushed status alone, and only `PHP`, `BRK` and the interrupts push one.  On ticks that
execute neither, processors that differ in the mode bits stay alike in everything else,
`replay_withModes`; and an instruction that takes the status from the stack gives both the
same bits, after which nothing differs.
-/
import Nmos6502.Memory
import Nmos6502.Proofs.Alike.History
import Nmos6502.Proofs.Stutter

namespace Nmos6502

/-! ### The status without its mode bits -/

/-- The status bits apart from interrupt-disable, decimal and break. -/
def Flag.steering : List Flag := [carry, zero, unused, overflow, negative]

/-- An instruction that does not push the status looks at no mode bit. -/
theorem Instruction.looks_subset_steering {i : Instruction} (hi : i ∉ [Instruction.php, .brk]) :
    ∀ f ∈ i.family.looks, f ∈ Flag.steering := by
  cases i with
  | php | brk => exact absurd (by decide) hi
  | _ => decide

namespace Status

/-- The status with other mode bits. -/
def withModes (s : Status) (interruptDisable decimal brk : Bool) : Status :=
  { s with interruptDisable, decimal, brk }

theorem agree_withModes (s : Status) (i d b : Bool) :
    Agree Flag.steering s (s.withModes i d b) := by
  intro f hf
  cases f with
  | interruptDisable | decimal | brk => exact absurd hf (by decide)
  | _ => rfl

theorem Agree.eq_withModes {s t : Status} (h : Agree Flag.steering s t) :
    t = s.withModes t.interruptDisable t.decimal t.brk := by
  apply ext_get
  intro f
  cases f with
  | interruptDisable | decimal | brk => rfl
  | carry | zero | unused | overflow | negative => exact (h _ (by decide)).symm

end Status

namespace Cpu

variable {σ : Type}

/-- The processor with other mode bits. -/
def withModes (c : Cpu σ) (interruptDisable decimal brk : Bool) : Cpu σ :=
  { c with machine :=
      { c.machine with status := c.machine.status.withModes interruptDisable decimal brk } }

theorem alike_withModes (c : Cpu σ) (i d b : Bool) :
    Alike Eq Flag.steering 0 c (c.withModes i d b) where
  machine := ⟨fun r => by cases r <;> rfl, rfl, c.machine.status.agree_withModes i d b, rfl⟩
  remaining := rfl
  cycles := UInt64.add_zero _

theorem Alike.eq_withModes {c c' : Cpu σ} (h : Alike Eq Flag.steering 0 c c') :
    ∃ i d b, c' = c.withModes i d b := by
  have hstatus := h.machine.status.eq_withModes
  refine ⟨c'.machine.status.interruptDisable, c'.machine.status.decimal, c'.machine.status.brk,
    h.eq_with.trans ?_⟩
  rw [← h.machine.bus, UInt64.add_zero]
  exact congrArg (fun s => { c with machine := { c.machine with status := s } }) hstatus

variable [Bus σ]

/-! ### Ticks that push no status -/

/-- Each of the first `n` ticks pushes no status. -/
def PushesNoStatus (c : Cpu σ) (n : Nat) : Prop :=
  ∀ k < n, ∀ d, (c.replay (List.replicate k .tick)).2.Fetches d →
    d.instruction ∉ [Instruction.php, .brk]

theorem PushesNoStatus.next {c : Cpu σ} {n : Nat} (h : c.PushesNoStatus (n + 1)) :
    c.tick.2.PushesNoStatus n :=
  fun k hk => h (k + 1) (Nat.succ_lt_succ hk)

theorem Alike.replay_ticks (n : Nat) :
    ∀ {c c' : Cpu σ}, Alike Eq Flag.steering 0 c c' → c.PushesNoStatus n →
      (c.replay (List.replicate n .tick)).1 = (c'.replay (List.replicate n .tick)).1 ∧
        Alike Eq Flag.steering 0 (c.replay (List.replicate n .tick)).2
          (c'.replay (List.replicate n .tick)).2 := by
  induction n with
  | zero => intro c c' h _; exact ⟨rfl, h⟩
  | succ n ih =>
      intro c c' h hpush
      have hlooks : ∀ d, c.Fetches d → ∀ f ∈ d.instruction.family.looks, f ∈ Flag.steering :=
        fun d hd => Instruction.looks_subset_steering (hpush 0 (Nat.succ_pos n) d hd)
      obtain ⟨herror, hnext⟩ :=
        h.tick (Bus.Bisimulation.eq σ).everywhere hlooks fun _ _ => trivial
      obtain ⟨hanswers, hafter⟩ := ih hnext hpush.next
      refine ⟨?_, hafter⟩
      show Answer.ofError c.tick.1 :: _ = Answer.ofError c'.tick.1 :: _
      rw [herror]
      exact congrArg _ hanswers

/-- An instruction that pulls the status leaves nothing to differ. -/
theorem Alike.tick_of_pulls {c c' : Cpu σ} (h : Alike Eq Flag.steering 0 c c') {d : Decoded}
    (hd : c.Fetches d) (hi : d.instruction ∈ [Instruction.plp, .rti]) : c'.tick.2 = c.tick.2 := by
  have hR := (Bus.Bisimulation.eq σ).everywhere
  have hperform : Machine.Alike Eq Flag.all
      ((c.machine.past d).perform d.operand d.instruction.family)
      ((c'.machine.past d).perform d.operand d.instruction.family) := by
    rcases List.mem_pair.mp hi with hi | hi
    · rw [hi]
      exact (h.machine.past d).pullStatus hR (fun _ _ => trivial) Flag.all
    · rw [hi]
      exact (h.machine.past d).returnFromInterrupt hR (fun _ _ => trivial) Flag.all
  rw [tick_of_fetches hd, tick_of_fetches (h.fetches hR (fun _ _ => trivial) hd)]
  exact Alike.eq ⟨hperform, rfl, h.idle.cycles⟩

/-- What holds after a tick holds after all the ticks that follow. -/
theorem replay_ticks_of_le {c c' : Cpu σ} {j k : Nat} (hjk : j < k)
    (h : (c'.replay (List.replicate j .tick)).2.tick.2 =
      (c.replay (List.replicate j .tick)).2.tick.2) :
    (c'.replay (List.replicate k .tick)).2 = (c.replay (List.replicate k .tick)).2 := by
  have hsplit : List.replicate k Event.tick =
      List.replicate j .tick ++ .tick :: List.replicate (k - (j + 1)) .tick := by
    rw [← List.replicate_succ, List.replicate_append_replicate]
    congr 1
    omega
  rw [hsplit, replay_append, replay_append]
  exact congrArg (fun d : Cpu σ => (d.replay (List.replicate (k - (j + 1)) .tick)).2) h

/--
**The mode bits never steer execution.**  Give a processor any other interrupt-disable,
decimal and break bits, and let as many ticks pass as execute neither `PHP` nor `BRK`.
After each of them both have answered the same and are the same in everything but those
bits: registers, program counter, the other status bits, countdown, tick total and bus.
Once an instruction has pulled the status, they are the same in those bits too.  In every
addressing mode, addition and subtraction do the same with the decimal bit set as clear,
and keep it.
-/
theorem replay_withModes (c : Cpu σ) (i d b : Bool) (n : Nat) (hpush : c.PushesNoStatus n) :
    let run := fun k => c.replay (List.replicate k .tick)
    let run' := fun k => (c.withModes i d b).replay (List.replicate k .tick)
    (∀ k ≤ n, (run' k).1 = (run k).1 ∧ ∃ i' d' b', (run' k).2 = (run k).2.withModes i' d' b') ∧
    (∀ k ≤ n, ∀ j < k, ∀ e, (run j).2.Fetches e → e.instruction ∈ [Instruction.plp, .rti] →
      (run' k).2 = (run k).2) ∧
    ∀ op ∈ [Instruction.adc, .sbc], ∀ (m : Machine σ) (mode : AddressingMode) (decimal : Bool),
      { m with status := { m.status with decimal } }.execute op mode =
        { m.execute op mode with status := { (m.execute op mode).status with decimal } } := by
  intro run run'
  have halike := c.alike_withModes i d b
  have hfewer {k : Nat} (hk : k ≤ n) : c.PushesNoStatus k :=
    fun j hj => hpush j (Nat.lt_of_lt_of_le hj hk)
  refine ⟨?_, ?_, ?_⟩
  · intro k hk
    obtain ⟨hanswers, hafter⟩ := halike.replay_ticks k (hfewer hk)
    exact ⟨hanswers.symm, hafter.eq_withModes⟩
  · intro k hk j hj e he hi
    obtain ⟨-, hafter⟩ := halike.replay_ticks j (hfewer (Nat.le_of_lt (Nat.lt_of_lt_of_le hj hk)))
    exact replay_ticks_of_le hj (hafter.tick_of_pulls he hi)
  · intro op hop m mode decimal
    rcases List.mem_pair.mp hop with rfl | rfl
    · rfl
    · rfl

/-- A processor about to pull a status. -/
def restoring : Cpu Memory where
  machine := { Machine.blank ((Memory.zero.set 0x0200 0x28).set 0x0100 0xC3) with
    pc := 0x0200, sp := 0xFF }
  remaining := 0
  cycles := 0

theorem decode_restoring :
    decode restoring.machine.bus 0x0200 0 0 = some
      { address := 0x0200, opcode := 0x28, instruction := .plp, mode := .implied
        operandBytes := [], operand := .none, cycles := 4 } := by
  have hlookup : Opcode.lookup 0x28 = some ⟨.plp, .implied, 4⟩ := by decide +kernel
  simp [decode, restoring, Machine.blank, Memory.get_set, hlookup, Bus.readBytes, resolve,
    AddressingMode.operandLength]

/-- The pulled status takes the place of the three bits that were set. -/
theorem replay_withModes_restoring :
    restoring.PushesNoStatus 1 ∧
    (restoring.withModes true true true).machine.status ≠ restoring.machine.status ∧
    ((restoring.withModes true true true).replay [.tick]).1 = (restoring.replay [.tick]).1 ∧
    ((restoring.withModes true true true).replay [.tick]).2 = (restoring.replay [.tick]).2 := by
  have hfetches : restoring.Fetches _ := ⟨rfl, decode_restoring⟩
  have hpush : restoring.PushesNoStatus 1 := by
    intro k hk d hd
    obtain rfl : k = 0 := Nat.lt_one_iff.mp hk
    rw [hd.unique hfetches]
    decide
  obtain ⟨halike, hpulled, -⟩ := replay_withModes restoring true true true 1 hpush
  exact ⟨hpush, by decide, (halike 1 (Nat.le_refl 1)).1,
    hpulled 1 (Nat.le_refl 1) 0 Nat.one_pos _ hfetches (by decide)⟩

end Cpu

end Nmos6502
