/-
What holds of every processor that a host can get to.

Bit 5 of the status stays set, the countdown stays within the longest sequence, and the
tick total counts ticks.  Bit 4 of the status is set only by a host's own call: the
instructions that load the status from the stack clear it, and no other instruction
touches it.  The status bytes that go to the stack follow: bit 5 is always set in them,
and bit 4 tells those of `BRK` and `PHP` from those of an interrupt.

The invariant holds of a new processor and is preserved by ticks and by every other
elementary event, and `replay_induction` takes it through a history.
-/
import Nmos6502.Proofs.Ticks
import Nmos6502.Proofs.Traffic

namespace Nmos6502

/-- Whether an event is a host's call that sets bit 4 of the status. -/
def Event.setsBreak : Event → Bool
  | setStatus b => (Status.ofByte b).brk
  | assignFlags mask on => mask.brk && on
  | _ => false

/-! ### The two bits without a latch -/

/-- Only loading the status from the stack decides bits 4 and 5. -/
theorem Instruction.notMem_flags {i : Instruction} (hplp : i ≠ .plp) (hrti : i ≠ .rti) :
    Flag.brk ∉ i.flags ∧ Flag.unused ∉ i.flags := by
  cases i with
  | plp => exact absurd rfl hplp
  | rti => exact absurd rfl hrti
  | _ => exact ⟨by decide, by decide⟩

/-- No instruction costs more than seven ticks. -/
theorem cycles_le_of_decode {σ : Type} [Bus σ] {bus : σ} {a : Address} {x y : Byte} {d : Decoded}
    (h : decode bus a x y = some d) : d.cycles ≤ 7 := by
  have hall : ∀ o ∈ Opcode.table.toList, o.all (fun e => e.cycles ≤ 7) = true := by
    decide +kernel
  obtain ⟨entry, hentry, rfl⟩ := exists_entry_of_decode h
  exact of_decide_eq_true (hall _ (List.mem_of_getElem? (Opcode.getElem?_table_of_lookup hentry)))

/-- An instruction leaves bits 4 and 5 as they are, or takes the status from the stack. -/
theorem Machine.status_perform {σ : Type} [Bus σ] {m : Machine σ} {d : Decoded}
    (hd : decode m.bus m.pc m.x m.y = some d) :
    let s := ((m.past d).perform d.operand d.instruction.family).status
    (s.brk = m.status.brk ∧ s.unused = m.status.unused) ∨ ∃ v, s = .ofPulled v := by
  intro s
  by_cases hplp : d.instruction = .plp
  · exact Or.inr ⟨_, by simp only [s, hplp]; rfl⟩
  by_cases hrti : d.instruction = .rti
  · have hs : s = (m.past d).returnFromInterrupt.status := by simp only [s, hrti]; rfl
    rw [hs, returnFromInterrupt_eq]
    exact Or.inr ⟨_, rfl⟩
  obtain ⟨hbrk, hunused⟩ := Instruction.notMem_flags hplp hrti
  exact Or.inl ⟨flag_perform_of_notMem hd hbrk, flag_perform_of_notMem hd hunused⟩

namespace Cpu

variable {σ : Type} [Bus σ]

theorem status_tick (c : Cpu σ) :
    let s := c.tick.2.machine.status
    (s.brk = c.machine.status.brk ∧ s.unused = c.machine.status.unused) ∨
      ∃ v, s = .ofPulled v := by
  rcases c.busy_or_fetches with hbusy | ⟨hready, hnone⟩ | ⟨d, hd⟩
  · rw [tick_of_busy hbusy]
    exact Or.inl ⟨rfl, rfl⟩
  · rw [tick_of_decode_none hready hnone]
    exact Or.inl ⟨rfl, rfl⟩
  · rw [tick_of_fetches hd]
    exact Machine.status_perform hd.found

/-! ### The invariant -/

/-- Bit 5 of the status is set, and the countdown is within the longest sequence. -/
structure Sound (c : Cpu σ) : Prop where
  unused : c.machine.status.unused = true
  remaining : c.remaining ≤ nmiCycles

theorem Sound.new (bus : σ) : (Cpu.new bus).Sound where
  unused := rfl
  remaining := by
    show resetCycles ≤ nmiCycles
    decide

theorem remaining_tick {c : Cpu σ} (h : c.remaining ≤ nmiCycles) :
    c.tick.2.remaining ≤ nmiCycles := by
  rcases c.busy_or_fetches with hbusy | ⟨hready, hnone⟩ | ⟨d, hd⟩
  · rw [tick_of_busy hbusy]
    rw [UInt8.le_iff_toNat_le] at h ⊢
    rw [toNat_remaining_idle hbusy]
    exact Nat.le_trans (Nat.sub_le _ 1) h
  · rw [tick_of_decode_none hready hnone]
    exact h
  · rw [tick_of_fetches hd]
    exact UInt8.le_trans (cycles_le_of_decode hd.found) (by decide)

theorem Sound.tick {c : Cpu σ} (h : c.Sound) : c.tick.2.Sound where
  unused := by
    rcases c.status_tick with ⟨-, hunused⟩ | ⟨v, hs⟩
    · rw [hunused]
      exact h.unused
    · rw [hs]
      rfl
  remaining := remaining_tick h.remaining

theorem Sound.handle {c : Cpu σ} (h : c.Sound) {e : Event} (helem : e.elementary = true) :
    (c.handle e).2.Sound := by
  cases e with
  | tick => exact h.tick
  | irq =>
      show c.irq.Sound
      unfold irq
      split
      · exact h
      · exact ⟨h.unused, (by decide : irqCycles ≤ nmiCycles)⟩
  | nmi => exact ⟨h.unused, UInt8.le_refl _⟩
  | reset => exact ⟨rfl, (by decide : resetCycles ≤ nmiCycles)⟩
  | setRegister r v =>
      have hstatus : (c.machine.set r v).status = c.machine.status := Machine.status_set _ r v
      exact ⟨(congrArg (·.unused) hstatus).trans h.unused, h.remaining⟩
  | setStatus b => exact ⟨rfl, h.remaining⟩
  | assignFlags mask on => exact ⟨rfl, h.remaining⟩
  | setPc a => exact ⟨h.unused, h.remaining⟩
  | write a v => exact ⟨h.unused, h.remaining⟩
  | step | run budget | disassemble start last =>
      exact absurd helem (by simp [Event.elementary])

/-- Bit 4 of the status is set by a host's call or not at all. -/
theorem brk_handle {c : Cpu σ} (h : c.machine.status.brk = false) {e : Event}
    (helem : e.elementary = true) (hset : e.setsBreak = false) :
    (c.handle e).2.machine.status.brk = false := by
  cases e with
  | tick =>
      show c.tick.2.machine.status.brk = false
      rcases c.status_tick with ⟨hbrk, -⟩ | ⟨v, hs⟩
      · rw [hbrk]
        exact h
      · rw [hs]
        rfl
  | irq =>
      show c.irq.machine.status.brk = false
      rw [machine_irq]
      split
      · exact h
      · exact h
  | setRegister r v =>
      have hstatus : (c.machine.set r v).status = c.machine.status := Machine.status_set _ r v
      exact (congrArg (·.brk) hstatus).trans h
  | assignFlags mask on =>
      have hassign := c.machine.status.get_assign mask on .brk
      show (c.machine.status.assign mask on).get .brk = false
      rw [hassign]
      split
      · rename_i hmask
        have hmask : mask.brk = true := hmask
        simpa [Event.setsBreak, hmask] using hset
      · exact h
  | setStatus b => exact hset
  | nmi | setPc a | write a v => exact h
  | reset => rfl
  | step | run budget | disassemble start last =>
      exact absurd helem (by simp [Event.elementary])

/-! ### The status bytes on the stack -/

/-- The event leaves a copy of the status on the stack. -/
def PushesStatus (c : Cpu σ) : Event → Prop
  | .tick => ∃ d, c.Fetches d ∧ (d.instruction = .php ∨ d.instruction = .brk)
  | .irq => c.machine.status.interruptDisable = false
  | .nmi => True
  | _ => False

/-- The copy is pushed last, and bit 4 in it tells a program's own copy. -/
theorem sends_of_pushesStatus {c : Cpu σ} {e : Event} (h : c.PushesStatus e) :
    ∃ word, ∃ copy : Status, c.sends e = pushes c.machine.sp (word ++ [copy.toByte]) ∧
      (c.machine.status.unused = true → copy.unused = true) ∧
      (e = .tick → copy.brk = true) ∧ (e ≠ .tick → copy.brk = c.machine.status.brk) := by
  cases e with
  | tick =>
      obtain ⟨d, hd, hi | hi⟩ := h
      · have hsends : c.sends .tick = pushes c.machine.sp [c.machine.status.pushedByProgram] := by
          rw [sends_of_fetches hd, Decoded.sends, hi, Status.pushedByProgram_eq]
        exact ⟨[], _, hsends, fun _ => rfl, fun _ => rfl, fun hne => absurd rfl hne⟩
      · have hsends : c.sends .tick = pushes c.machine.sp
            [highByte (c.machine.pc + 2), lowByte (c.machine.pc + 2),
              { c.machine.status with interruptDisable := true }.pushedByProgram] := by
          rw [sends_of_fetches hd, Decoded.sends, hi, Status.pushedByProgram_interruptDisable]
        exact ⟨[_, _], _, hsends, fun _ => rfl, fun _ => rfl, fun hne => absurd rfl hne⟩
  | irq =>
      have hmasked : c.machine.status.interruptDisable = false := h
      have hsends : c.sends .irq = pushes c.machine.sp
          [highByte c.machine.pc, lowByte c.machine.pc,
            Status.toByte { c.machine.status with interruptDisable := true }] := by
        rw [sends, hmasked, Status.toByte_interruptDisable]
        rfl
      exact ⟨[_, _], _, hsends, id, fun heq => absurd heq (by decide), fun _ => rfl⟩
  | nmi =>
      exact ⟨[_, _], c.machine.status, rfl, id, fun heq => absurd heq (by decide), fun _ => rfl⟩
  | _ => exact absurd h id

/-! ### Every reachable processor -/

theorem sound_replay_new (bus : σ) (es : List Event) : ((new bus).replay es).2.Sound :=
  replay_induction (Sound.new bus) (fun _ hc => hc.tick)
    fun _ _ helem _ hc => hc.handle helem

theorem brk_replay_new (bus : σ) {es : List Event} (hset : ∀ e ∈ es, e.setsBreak = false) :
    ((new bus).replay es).2.machine.status.brk = false := by
  refine replay_induction (P := fun c : Cpu σ => c.machine.status.brk = false) rfl ?_ ?_
  · intro c hc
    exact brk_handle hc (e := .tick) rfl rfl
  · intro e he helem c hc
    exact brk_handle hc helem (hset e he)

/--
**What holds of every processor that a host can get to**, from a new one by any history.
Bit 5 of the status is set, the countdown is at most eight, and the tick total is the
number of ticks in the history with its rows of ticks written out, which nothing but
clocking moves.  If no call of the host has set bit 4 of the status, it is clear.  An
event that leaves the status on the stack sends it last, with bit 5 set; bit 4 of the
copy is set by `PHP` and `BRK`, and is clear in the copy of an interrupt as long as no
call of the host has set it.
-/
theorem reachable_invariant (bus : σ) (es : List Event) :
    let c := ((new bus).replay es).2
    let recorded := ((new (Recorded.start bus)).replay es).2
    c.machine.status.unused = true ∧ c.remaining ≤ 8 ∧
    c.cycles = UInt64.ofNat (((new bus).unroll es).count .tick) ∧
    (∀ e, e.clocks = false → (c.handle e).2.cycles = c.cycles) ∧
    ((∀ e ∈ es, e.setsBreak = false) → c.machine.status.brk = false) ∧
    ∀ e, recorded.PushesStatus e → ∃ frame cell v,
      (recorded.handle e).2.machine.bus.writes.toList =
        recorded.machine.bus.writes.toList ++ frame ++ [(cell, v)] ∧
      (Status.ofByte v).unused = true ∧
      (e = .tick → (Status.ofByte v).brk = true) ∧
      (e ≠ .tick → (∀ e ∈ es, e.setsBreak = false) → (Status.ofByte v).brk = false) := by
  intro c recorded
  have hsound : c.Sound := sound_replay_new bus es
  refine ⟨hsound.unused, hsound.remaining, ?_, ?_, brk_replay_new bus, ?_⟩
  · rw [show c.cycles = _ from cycles_replay (new bus) es]
    exact UInt64.zero_add _
  · intro e he
    exact cycles_handle_of_not_clocks c he
  · intro e he
    have hunused := (sound_replay_new (Recorded.start bus) es).unused
    have helem : e.elementary = true := by
      cases e with
      | step | run budget | disassemble start last => exact absurd he id
      | _ => rfl
    obtain ⟨word, copy, hsends, hcopy, htick, hother⟩ := sends_of_pushesStatus he
    obtain ⟨frame, cell, hpushes⟩ := exists_pushes_concat recorded.machine.sp word copy.toByte
    refine ⟨frame, cell, copy.toByte, ?_, ?_, ?_, ?_⟩
    · rw [bus_handle recorded helem, Recorded.writes_sendAll, hsends, hpushes, List.append_assoc]
    · rw [Status.ofByte_toByte]
      exact hcopy hunused
    · rw [Status.ofByte_toByte]
      exact htick
    · intro hne hset
      rw [Status.ofByte_toByte, hother hne]
      exact brk_replay_new _ hset

/-- An interrupt on top of another one: the copies that both push have bit 4 clear. -/
theorem reachable_invariant_interrupted :
    let es := [Event.setStatus 0x00, .irq]
    let c := ((new Memory.zero).replay es).2
    let recorded := ((new (Recorded.start Memory.zero)).replay es).2
    (∀ e ∈ es, e.setsBreak = false) ∧ c.machine.status.unused = true ∧ c.remaining ≤ 8 ∧
    c.cycles = 0 ∧ c.machine.status.brk = false ∧ recorded.PushesStatus .nmi ∧
    ∃ frame cell v, (recorded.handle .nmi).2.machine.bus.writes.toList =
        recorded.machine.bus.writes.toList ++ frame ++ [(cell, v)] ∧
      (Status.ofByte v).unused = true ∧ (Status.ofByte v).brk = false := by
  intro es c recorded
  have hset : ∀ e ∈ es, e.setsBreak = false := by decide
  obtain ⟨hunused, hremaining, hcycles, -, hbrk, hpushed⟩ := reachable_invariant Memory.zero es
  obtain ⟨frame, cell, v, hwrites, hv, -, hclear⟩ := hpushed .nmi trivial
  exact ⟨hset, hunused, hremaining, hcycles, hbrk hset, trivial, frame, cell, v, hwrites, hv,
    hclear (by decide) hset⟩

end Cpu

end Nmos6502
