/-
Histories with every row of ticks written out.

Finishing an instruction and running a budget are rows of ticks whose length the
processor decides as it goes.  `Cpu.unroll` puts those ticks in their place, and
`replay_unroll` says that the processor afterwards is the same.  What elementary events
preserve is therefore preserved by all, `replay_induction`, and the tick total is the
number of ticks in the history that has been written out.
-/
import Nmos6502.Proofs.Stutter

namespace Nmos6502

/-- Whether an event clocks the processor. -/
def Event.clocks : Event → Bool
  | tick | step | run _ => true
  | _ => false

namespace Cpu

variable {σ : Type} [Bus σ]

/-! ### Rows of ticks -/

/-- The ticks that a budget is used for: all of it, or those up to the first that fails. -/
def runLength : Nat → Cpu σ → Nat
  | 0, _ => 0
  | budget + 1, c =>
    match c.tick with
    | (some _, _) => 1
    | (none, c) => runLength budget c + 1

/-- The ticks until the processor is done with what it is doing, or one of them fails. -/
def stepLength (c : Cpu σ) : Nat :=
  match c.tick with
  | (some _, _) => 1
  | (none, c) => runLength c.remaining.toNat c + 1

theorem runForTicks_eq_replay :
    ∀ (budget : Nat) (c : Cpu σ), (runForTicks budget c).2 =
      (c.replay (List.replicate (runLength budget c) .tick)).2 := by
  intro budget
  induction budget with
  | zero => intro c; rfl
  | succ budget ih =>
      intro c
      rw [runForTicks, runLength]
      rcases htick : c.tick with ⟨_ | e, c'⟩
      · show (runForTicks budget c').2 = (c.tick.2.replay _).2
        rw [htick]
        exact ih c'
      · show c' = c.tick.2
        rw [htick]

theorem stepInstruction_eq_replay (c : Cpu σ) :
    c.stepInstruction.2 = (c.replay (List.replicate c.stepLength .tick)).2 := by
  rw [stepInstruction, stepLength]
  rcases htick : c.tick with ⟨_ | e, c'⟩
  · show (runForTicks c'.remaining.toNat c').2 = (c.tick.2.replay _).2
    rw [htick]
    exact runForTicks_eq_replay _ c'
  · show c' = c.tick.2
    rw [htick]

/-! ### Writing the ticks out -/

/-- The elementary events that an event amounts to. -/
def unrollEvent (c : Cpu σ) : Event → List Event
  | .step => List.replicate c.stepLength .tick
  | .run budget => List.replicate (c.runLength budget.toNat) .tick
  | .disassemble _ _ => []
  | e => [e]

/-- The elementary events that a history amounts to. -/
def unroll (c : Cpu σ) : List Event → List Event
  | [] => []
  | e :: es => c.unrollEvent e ++ (c.handle e).2.unroll es

theorem handle_eq_replay (c : Cpu σ) (e : Event) :
    (c.handle e).2 = (c.replay (c.unrollEvent e)).2 := by
  cases e with
  | step => exact stepInstruction_eq_replay c
  | run budget => exact runForTicks_eq_replay budget.toNat c
  | _ => rfl

/-- **A history leaves the processor that its elementary events leave.** -/
theorem replay_unroll :
    ∀ (es : List Event) (c : Cpu σ), (c.replay (c.unroll es)).2 = (c.replay es).2 := by
  intro es
  induction es with
  | nil => intro c; rfl
  | cons e es ih =>
      intro c
      rw [unroll, replay_append, ← handle_eq_replay]
      exact ih (c.handle e).2

theorem unroll_append (c : Cpu σ) (es fs : List Event) :
    c.unroll (es ++ fs) = c.unroll es ++ (c.replay es).2.unroll fs := by
  induction es generalizing c with
  | nil => rfl
  | cons e es ih =>
      rw [List.cons_append, unroll, unroll, ih, List.append_assoc]
      rfl

/-- What is written out is ticks and the elementary events of the history itself. -/
theorem of_mem_unrollEvent {c : Cpu σ} {e e' : Event} (h : e' ∈ c.unrollEvent e) :
    e'.elementary = true ∧ (e' = .tick ∨ e' = e) := by
  cases e with
  | step | run budget =>
      obtain rfl := List.eq_of_mem_replicate h
      exact ⟨rfl, Or.inl rfl⟩
  | disassemble start last => exact absurd h List.not_mem_nil
  | _ =>
      obtain rfl := List.mem_singleton.mp h
      exact ⟨rfl, Or.inr rfl⟩

theorem of_mem_unroll {e' : Event} {es : List Event} :
    ∀ {c : Cpu σ}, e' ∈ c.unroll es → e'.elementary = true ∧ (e' = .tick ∨ e' ∈ es) := by
  induction es with
  | nil => intro c h; exact absurd h List.not_mem_nil
  | cons e es ih =>
      intro c h
      rcases List.mem_append.mp h with hfirst | hlater
      · obtain ⟨helem, htick | rfl⟩ := of_mem_unrollEvent hfirst
        · exact ⟨helem, Or.inl htick⟩
        · exact ⟨helem, Or.inr List.mem_cons_self⟩
      · obtain ⟨helem, htick | hmem⟩ := ih hlater
        · exact ⟨helem, Or.inl htick⟩
        · exact ⟨helem, Or.inr (List.mem_cons_of_mem _ hmem)⟩

/-! ### What elementary events preserve -/

private theorem replay_induction_of_handle {P : Cpu σ → Prop} {es : List Event}
    (hstep : ∀ e ∈ es, ∀ c, P c → P (c.handle e).2) :
    ∀ {c : Cpu σ}, P c → P (c.replay es).2 := by
  induction es with
  | nil => intro c hc; exact hc
  | cons e es ih =>
      intro c hc
      exact ih (fun e' he' => hstep e' (List.mem_cons_of_mem _ he'))
        (hstep e List.mem_cons_self c hc)

/--
**What ticks and the elementary events of a history preserve, the history preserves.**
-/
theorem replay_induction {P : Cpu σ → Prop} {es : List Event} {c : Cpu σ} (hc : P c)
    (htick : ∀ c, P c → P c.tick.2)
    (hstep : ∀ e ∈ es, e.elementary = true → ∀ c, P c → P (c.handle e).2) :
    P (c.replay es).2 := by
  rw [← replay_unroll]
  refine replay_induction_of_handle ?_ hc
  intro e he
  obtain ⟨helem, rfl | hmem⟩ := of_mem_unroll he
  · exact htick
  · exact hstep e hmem helem

/-! ### The tick total -/

theorem cycles_tick (c : Cpu σ) : c.tick.2.cycles = c.cycles + 1 := by
  cases hready : c.ready with
  | false =>
      rw [tick_of_busy hready]
      rfl
  | true =>
      rw [tick_of_ready hready, fetch]
      rcases c.machine.step with ⟨cost | e, m⟩
      · rfl
      · rfl

/-- Nothing but clocking moves the tick total. -/
theorem cycles_handle_of_not_clocks (c : Cpu σ) {e : Event} (h : e.clocks = false) :
    (c.handle e).2.cycles = c.cycles := by
  cases e with
  | tick | step | run budget => exact absurd h (by simp [Event.clocks])
  | irq =>
      show c.irq.cycles = _
      unfold irq
      split
      · rfl
      · rfl
  | _ => rfl

theorem cycles_handle_of_elementary (c : Cpu σ) {e : Event} (helem : e.elementary = true)
    (htick : e ≠ .tick) : (c.handle e).2.cycles = c.cycles := by
  apply cycles_handle_of_not_clocks
  cases e with
  | tick => exact absurd rfl htick
  | step | run budget => exact absurd helem (by simp [Event.elementary])
  | _ => rfl

theorem cycles_replay_of_elementary {es : List Event} :
    ∀ {c : Cpu σ}, (∀ e ∈ es, e.elementary = true) →
      (c.replay es).2.cycles = c.cycles + UInt64.ofNat (es.count .tick) := by
  induction es with
  | nil => intro c _; exact (UInt64.add_zero _).symm
  | cons e es ih =>
      intro c helem
      have htail := ih (c := (c.handle e).2) fun e' he' => helem e' (List.mem_cons_of_mem _ he')
      show ((c.handle e).2.replay es).2.cycles = _
      rw [htail]
      by_cases htick : e = .tick
      · subst htick
        have hcount : UInt64.ofNat ((Event.tick :: es).count .tick) =
            1 + UInt64.ofNat (es.count .tick) := by
          rw [List.count_cons_self, UInt64.ofNat_add, UInt64.add_comm]
          rfl
        show c.tick.2.cycles + _ = _
        rw [cycles_tick, hcount, UInt64.add_assoc]
      · rw [cycles_handle_of_elementary c (helem e List.mem_cons_self) htick,
          List.count_cons_of_ne htick]

/-- **The tick total is the number of ticks**, as far as it can count. -/
theorem cycles_replay (c : Cpu σ) (es : List Event) :
    (c.replay es).2.cycles = c.cycles + UInt64.ofNat ((c.unroll es).count .tick) := by
  rw [← replay_unroll]
  exact cycles_replay_of_elementary fun e he => (of_mem_unroll he).1

end Cpu

end Nmos6502
