/-
The countdown is invisible.

A processor is a machine with a clock around it, and the clock decides nothing but when
the next fetch comes.  `Machine.replay` is the same history on a machine without a
clock, where every tick fetches; `Cpu.dropBusy` takes the ticks out of a history on
which the processor was only counting.  `replay_dropBusy` says that the two runs leave
the same machine and report the same errors: the clocked processor repeats states of
the timeless one, and the countdown bounds how often.

The induction is on the history.  Its step is `machine_handle`: an event that is not a
busy tick does to the machine inside the processor what it does to the machine alone,
whatever the countdown says.
-/
import Nmos6502.Event
import Nmos6502.Memory

namespace Nmos6502

/-- Whether an event is one thing that happens, and neither a row of ticks nor a question. -/
def Event.elementary : Event → Bool
  | step | run _ | disassemble _ _ => false
  | _ => true

/-- The error that an answer reports. -/
def Answer.error? : Answer → Option IllegalOpcode
  | failed e => some e
  | _ => none

theorem Answer.error?_ofError (e : Option IllegalOpcode) : (Answer.ofError e).error? = e := by
  cases e <;> rfl

/-! ### The machine without a clock -/

namespace Machine

variable {σ : Type} [Bus σ]

/--
What an event does to a machine without a clock, and the error it reports.  Every tick
fetches.  Events that are not elementary have no part in this.
-/
def handle (m : Machine σ) : Event → Option IllegalOpcode × Machine σ
  | .tick =>
      match m.step with
      | (.ok _, m) => (none, m)
      | (.error e, m) => (some e, m)
  | .irq => (none, if m.status.interruptDisable then m else m.irq)
  | .nmi => (none, m.nmi)
  | .reset => (none, m.reset)
  | .setRegister r v => (none, m.set r v)
  | .setPc a => (none, { m with pc := a })
  | .setStatus b => (none, { m with status := (Status.ofByte b).forceUnused })
  | .assignFlags mask on => (none, { m with status := (m.status.assign mask on).forceUnused })
  | .write a v => (none, m.write a v)
  | .step | .run _ | .disassemble _ _ => (none, m)

/-- The errors that a history reports, and the machine after it. -/
def replay (m : Machine σ) : List Event → List IllegalOpcode × Machine σ
  | [] => ([], m)
  | e :: es =>
    let (error, m) := m.handle e
    let (errors, m) := m.replay es
    (error.toList ++ errors, m)

end Machine

namespace Cpu

variable {σ : Type} [Bus σ]

/-! ### What an event does to the machine inside -/

/-- Whether an event is a tick that only counts. -/
def counts (c : Cpu σ) (e : Event) : Bool := e == .tick && !c.ready

theorem handle_of_counts {c : Cpu σ} {e : Event} (h : c.counts e = true) :
    c.handle e = (.done, c.idle) := by
  obtain ⟨htick, hbusy⟩ := Bool.and_eq_true_iff.mp h
  obtain rfl : e = .tick := eq_of_beq htick
  show Prod.map Answer.ofError id c.tick = _
  rw [tick_of_busy (by simpa using hbusy)]
  rfl

theorem fetch_eq_handle (c : Cpu σ) :
    c.fetch.1 = (c.machine.handle .tick).1 ∧ c.fetch.2.machine = (c.machine.handle .tick).2 := by
  rcases hstep : c.machine.step with ⟨cost | e, m⟩
  · simp [fetch, Machine.handle, hstep]
  · simp [fetch, Machine.handle, hstep]

theorem machine_irq (c : Cpu σ) :
    c.irq.machine = if c.machine.status.interruptDisable then c.machine else c.machine.irq := by
  unfold irq
  split
  · rfl
  · rfl

/--
An event that is not a busy tick does to the machine what it does without a clock.
-/
theorem machine_handle {c : Cpu σ} {e : Event} (helem : e.elementary = true)
    (hcounts : c.counts e = false) :
    (c.handle e).1.error? = (c.machine.handle e).1 ∧
      (c.handle e).2.machine = (c.machine.handle e).2 := by
  cases e with
  | tick =>
      have hready : c.ready = true := by simpa [counts] using hcounts
      obtain ⟨herror, hmachine⟩ := c.fetch_eq_handle
      show (Answer.ofError c.tick.1).error? = _ ∧ c.tick.2.machine = _
      rw [tick_of_ready hready, Answer.error?_ofError]
      exact ⟨herror, hmachine⟩
  | irq => exact ⟨rfl, machine_irq c⟩
  | step => exact absurd helem (by decide)
  | run budget => exact absurd helem (by simp [Event.elementary])
  | disassemble start last => exact absurd helem (by simp [Event.elementary])
  | _ => exact ⟨rfl, rfl⟩

/-! ### Histories without the busy ticks -/

/-- A history without the ticks on which the processor only counts. -/
def dropBusy (c : Cpu σ) : List Event → List Event
  | [] => []
  | e :: es =>
    if c.counts e then (c.handle e).2.dropBusy es else e :: (c.handle e).2.dropBusy es

/-- **Without its busy ticks, a history is one of the timeless machine.** -/
theorem replay_dropBusy :
    ∀ (es : List Event) (c : Cpu σ), (∀ e ∈ es, e.elementary = true) →
      (c.replay es).1.filterMap Answer.error? = (c.machine.replay (c.dropBusy es)).1 ∧
        (c.replay es).2.machine = (c.machine.replay (c.dropBusy es)).2 := by
  intro es
  induction es with
  | nil => intro c _; exact ⟨rfl, rfl⟩
  | cons e es ih =>
      intro c helem
      obtain ⟨ihErrors, ihMachine⟩ := ih (c.handle e).2 fun e' he' => helem e' (by simp [he'])
      by_cases hcounts : c.counts e = true
      · -- A busy tick leaves the machine and answers nothing, and is dropped.
        rw [dropBusy, if_pos hcounts]
        rw [handle_of_counts hcounts] at ihErrors ihMachine ⊢
        simp only [replay, handle_of_counts hcounts]
        exact ⟨ihErrors, ihMachine⟩
      · obtain ⟨herror, hmachine⟩ :=
          machine_handle (helem e (by simp)) (Bool.eq_false_iff.mpr hcounts)
        rw [dropBusy, if_neg hcounts]
        rw [hmachine] at ihErrors ihMachine
        simp only [replay, Machine.replay]
        refine ⟨?_, ihMachine⟩
        rw [List.filterMap_cons, herror, ihErrors]
        cases (c.machine.handle e).1 <;> rfl

/-! ### Events in the middle of an instruction -/

theorem replay_append :
    ∀ (es fs : List Event) (c : Cpu σ),
      (c.replay (es ++ fs)).2 = ((c.replay es).2.replay fs).2 := by
  intro es fs
  induction es with
  | nil => intro c; rfl
  | cons e es ih => intro c; exact ih (c.handle e).2

/-- Ticks within the countdown only count. -/
theorem replay_replicate_tick :
    ∀ (k : Nat) (c : Cpu σ), k ≤ c.remaining.toNat →
      (c.replay (List.replicate k .tick)).2.machine = c.machine ∧
        (c.replay (List.replicate k .tick)).2.remaining.toNat = c.remaining.toNat - k := by
  intro k
  induction k with
  | zero => intro c _; exact ⟨rfl, rfl⟩
  | succ k ih =>
      intro c hk
      have hbusy : c.ready = false := ready_eq_false (by omega)
      have hcounts : c.counts .tick = true := by simp [counts, hbusy]
      have hidle := toNat_remaining_idle hbusy
      obtain ⟨hmachine, hremaining⟩ := ih c.idle (by omega)
      rw [List.replicate_succ]
      simp only [replay, handle_of_counts hcounts]
      refine ⟨hmachine, ?_⟩
      rw [hremaining, hidle]
      omega

/-- An elementary event other than a tick does not look at the countdown. -/
theorem machine_handle_replicate_tick {c : Cpu σ} {e : Event} (helem : e.elementary = true)
    (htick : e ≠ .tick) {k : Nat} (hk : k ≤ c.remaining.toNat) :
    (c.replay (List.replicate k .tick ++ [e])).2.machine = (c.machine.handle e).2 := by
  have hcounts : (c.replay (List.replicate k .tick)).2.counts e = false := by
    rw [counts, beq_false_of_ne htick, Bool.false_and]
  rw [replay_append]
  show ((c.replay (List.replicate k .tick)).2.handle e).2.machine = _
  rw [(machine_handle helem hcounts).2, (replay_replicate_tick k c hk).1]

/--
**The countdown shows nowhere.**  What a history of ticks, interrupts, resets and the
host's writes leaves in the registers and on the bus, and the errors that it reports,
are those of the history without the busy ticks on the machine without a clock.  An
event that comes while the processor counts down acts as if it had come when the
countdown was through.
-/
theorem replay_eq_timeless (c : Cpu σ) (es : List Event)
    (helem : ∀ e ∈ es, e.elementary = true) :
    (c.replay es).2.machine = (c.machine.replay (c.dropBusy es)).2 ∧
    (c.replay es).1.filterMap Answer.error? = (c.machine.replay (c.dropBusy es)).1 ∧
    (c.replay (List.replicate c.remaining.toNat .tick)).2.ready = true ∧
    ∀ e, e.elementary = true → e ≠ .tick → ∀ k ≤ c.remaining.toNat,
      (c.replay (List.replicate k .tick ++ [e])).2.machine =
        (c.replay (List.replicate c.remaining.toNat .tick ++ [e])).2.machine := by
  obtain ⟨herrors, hmachine⟩ := replay_dropBusy es c helem
  refine ⟨hmachine, herrors, ?_, ?_⟩
  · obtain ⟨-, hzero⟩ := replay_replicate_tick c.remaining.toNat c (Nat.le_refl _)
    rw [ready, beq_iff_eq]
    apply UInt8.toNat_inj.mp
    rw [hzero, Nat.sub_self]
    rfl
  · intro e he htick k hk
    rw [machine_handle_replicate_tick he htick hk,
      machine_handle_replicate_tick he htick (Nat.le_refl _)]

/-- An interrupt in the middle of the reset sequence, and a tick in the middle of its own. -/
theorem replay_eq_timeless_interruptedReset :
    (∀ e ∈ [Event.tick, .irq, .tick, .setRegister .a 5], e.elementary = true) ∧
    ((new Memory.zero).replay [.tick, .irq, .tick, .setRegister .a 5]).2.machine =
      ((new Memory.zero).machine.replay [.irq, .setRegister .a 5]).2 := by
  have helem : ∀ e ∈ [Event.tick, .irq, .tick, .setRegister .a 5], e.elementary = true := by
    decide
  refine ⟨helem, ?_⟩
  have hdrop : (new Memory.zero).dropBusy [.tick, .irq, .tick, .setRegister .a 5] =
      [.irq, .setRegister .a 5] := rfl
  rw [(replay_eq_timeless (new Memory.zero) _ helem).1, hdrop]

end Cpu

end Nmos6502
