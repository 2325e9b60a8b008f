/-
How long maskable interrupts stay masked.

Once the interrupt-disable bit is set, three instructions can clear it: `CLI`, and the two
that pull a status if the status on the stack has the bit clear.  `Decoded.LiftsMask` names
them together with what they find.  Nothing else that a processor does lifts the mask, an
interrupt of either kind included, so the bit stays set through every history that
executes none of them and in which the host leaves the status alone, `masked_replay`.

What counts is what is executed, so the points of a history are those of its ticks,
written out as in `Cpu.unroll`: a step may run into a `CLI` as a tick may.
-/
import Nmos6502.Proofs.Ticks
import Nmos6502.Proofs.Traffic

namespace Nmos6502

/-- Whether an event puts a status of its own in place of the processor's. -/
def Event.setsStatus : Event → Bool
  | reset | setStatus _ | assignFlags _ _ => true
  | _ => false

/--
The instruction clears the interrupt-disable bit: it is the one that does so by itself, or
it pulls a status in which the bit is clear.
-/
def Decoded.LiftsMask {σ : Type} [Bus σ] (d : Decoded) (m : Machine σ) : Prop :=
  match d.instruction with
  | .cli => True
  | .plp | .rti => m.pull.1 &&& Flag.interruptDisable.mask = 0
  | _ => False

/-! ### Nothing else lifts the mask -/

theorem Status.interruptDisable_ofPulled {v : Byte} (h : v &&& Flag.interruptDisable.mask ≠ 0) :
    (ofPulled v).interruptDisable = true :=
  bne_iff_ne.mpr h

/-- **An instruction that does not lift the mask leaves it.** -/
theorem Machine.masked_perform {σ : Type} [Bus σ] {m : Machine σ} {d : Decoded}
    (hd : decode m.bus m.pc m.x m.y = some d) (hmask : m.status.interruptDisable = true)
    (hlift : ¬d.LiftsMask m) :
    ((m.past d).perform d.operand d.instruction.family).status.interruptDisable = true := by
  unfold Decoded.LiftsMask at hlift
  by_cases hmem : Flag.interruptDisable ∈ d.instruction.flags
  · cases hi : d.instruction with
    | cli =>
        rw [hi] at hlift
        exact absurd trivial hlift
    | plp =>
        rw [hi] at hlift
        exact Status.interruptDisable_ofPulled hlift
    | rti =>
        rw [hi] at hlift
        show (m.past d).returnFromInterrupt.status.interruptDisable = true
        rw [returnFromInterrupt_eq]
        exact Status.interruptDisable_ofPulled hlift
    | brk | sei => rfl
    | _ =>
        rw [hi] at hmem
        exact absurd hmem (by decide)
  · exact (flag_perform_of_notMem hd hmem).trans hmask

/-- An interrupt pushes its frame, and only then reads the vector. -/
theorem Machine.interrupt_eq {σ : Type} [Bus σ] (m : Machine σ) (vector : Address) :
    let bus := Bus.sendAll m.bus (pushes m.sp [highByte m.pc, lowByte m.pc, m.status.toByte])
    m.interrupt vector = { m with sp := m.sp - 3, pc := Bus.readWord bus vector, bus } := by
  intro bus
  have hbus : (m.interrupt vector).bus = bus := m.bus_interrupt vector
  have hsp : m.sp - 1 - 1 - 1 = m.sp - 3 := by grind
  rw [← hbus, ← hsp]
  rfl

namespace Cpu

variable {σ : Type} [Bus σ]

/-- A masked interrupt changes nothing. -/
theorem irq_of_masked {c : Cpu σ} (hmask : c.machine.status.interruptDisable = true) :
    c.irq = c :=
  if_pos hmask

theorem masked_tick {c : Cpu σ} (hmask : c.machine.status.interruptDisable = true)
    (hlift : ∀ d, c.Fetches d → ¬d.LiftsMask c.machine) :
    c.tick.2.machine.status.interruptDisable = true := by
  rcases c.busy_or_fetches with hbusy | ⟨hready, hnone⟩ | ⟨d, hd⟩
  · rw [tick_of_busy hbusy]
    exact hmask
  · rw [tick_of_decode_none hready hnone]
    exact hmask
  · rw [tick_of_fetches hd]
    exact Machine.masked_perform hd.found hmask (hlift d hd)

/-- **An event leaves the mask**, if it is no instruction that lifts it and sets no status. -/
theorem masked_handle {c : Cpu σ} (hmask : c.machine.status.interruptDisable = true) {e : Event}
    (helem : e.elementary = true) (hhost : e.setsStatus = false)
    (hlift : e = .tick → ∀ d, c.Fetches d → ¬d.LiftsMask c.machine) :
    (c.handle e).2.machine.status.interruptDisable = true := by
  cases e with
  | tick => exact masked_tick hmask (hlift rfl)
  | irq =>
      show c.irq.machine.status.interruptDisable = true
      rw [irq_of_masked hmask]
      exact hmask
  | setRegister r v =>
      exact (congrArg (·.interruptDisable) (Machine.status_set c.machine r v)).trans hmask
  | nmi | setPc a | write a v => exact hmask
  | reset | setStatus b | assignFlags mask on => exact absurd hhost (by simp [Event.setsStatus])
  | step | run budget | disassemble start last =>
      exact absurd helem (by simp [Event.elementary])

/-! ### The points of a history -/

/--
The history, with its rows of ticks written out, comes to a processor with these events
still to go.
-/
def ComesTo (c : Cpu σ) (es : List Event) (c' : Cpu σ) (rest : List Event) : Prop :=
  ∃ past, c.unroll es = past ++ rest ∧ c' = (c.replay past).2

/-- Between two events of a history there is such a point. -/
theorem comesTo_replay (c : Cpu σ) (past rest : List Event) :
    c.ComesTo (past ++ rest) (c.replay past).2 ((c.replay past).2.unroll rest) :=
  ⟨c.unroll past, c.unroll_append past rest, (c.replay_unroll past).symm⟩

/-- The mask stays through elementary events, of which no instruction lifts it. -/
theorem masked_replay {past : List Event} :
    ∀ {c : Cpu σ}, c.machine.status.interruptDisable = true →
      (∀ e ∈ past, e.elementary = true ∧ e.setsStatus = false) →
      (∀ before after d, past = before ++ .tick :: after → (c.replay before).2.Fetches d →
        ¬d.LiftsMask (c.replay before).2.machine) →
      (c.replay past).2.machine.status.interruptDisable = true := by
  induction past with
  | nil => intro c hmask _ _; exact hmask
  | cons e past ih =>
      intro c hmask hevents hlift
      obtain ⟨helem, hhost⟩ := hevents e List.mem_cons_self
      have hnext := masked_handle hmask helem hhost fun htick d hd =>
        hlift [] past d (by rw [htick]; rfl) hd
      refine ih hnext (fun e' he' => hevents e' (List.mem_cons_of_mem _ he')) ?_
      intro before after d hsplit
      exact hlift (e :: before) after d (congrArg _ hsplit)

/-! ### The mask and the interrupts -/

/--
**Masked interrupts do nothing, and nothing lifts the mask by accident.**  Let the
interrupt-disable bit be set, and take a history in which the host neither resets nor sets
the status and no tick executes `CLI` or pulls a status with the bit clear.  The bit is set
at every point of the history, in the middle of a step too, and every maskable interrupt in
it leaves the processor and its bus as they are.  Where the bit is clear, the interrupt is
taken whatever the countdown is: it pushes the program counter and the status, in which
the bit is set by then, goes to the word that the bus holds at `$FFFE` after that, sets
the bit and takes seven ticks, and changes nothing else.
-/
theorem masked_until_lifted (c : Cpu σ) :
    (c.machine.status.interruptDisable = true → ∀ es : List Event,
      (∀ e ∈ es, e.setsStatus = false) →
      (∀ c' rest d, c.ComesTo es c' (.tick :: rest) → c'.Fetches d → ¬d.LiftsMask c'.machine) →
      (∀ c' rest, c.ComesTo es c' rest → c'.machine.status.interruptDisable = true) ∧
      (∀ past rest, es = past ++ rest →
        (c.replay past).2.machine.status.interruptDisable = true) ∧
      ∀ past rest, es = past ++ .irq :: rest →
        (c.replay past).2.handle .irq = (.done, (c.replay past).2)) ∧
    (c.machine.status.interruptDisable = false →
      let m := c.machine
      let bus := Bus.sendAll m.bus
        (pushes m.sp [highByte m.pc, lowByte m.pc, m.status.toByte ||| 0x04])
      c.irq =
        { machine :=
            { m with
              sp := m.sp - 3
              pc := wordOf (Bus.read bus 0xFFFE) (Bus.read bus 0xFFFF)
              status := { m.status with interruptDisable := true }
              bus }
          remaining := 7
          cycles := c.cycles }) := by
  refine ⟨?_, ?_⟩
  · intro hmask es hhost hlift
    have hpoint : ∀ c' rest, c.ComesTo es c' rest →
        c'.machine.status.interruptDisable = true := by
      rintro c' rest ⟨past, hsplit, rfl⟩
      refine masked_replay hmask ?_ ?_
      · intro e he
        obtain ⟨helem, htick | hmem⟩ :=
          of_mem_unroll (hsplit ▸ List.mem_append_left rest he)
        · exact ⟨helem, by rw [htick]; rfl⟩
        · exact ⟨helem, hhost e hmem⟩
      · intro before after d hpast
        exact hlift _ (after ++ rest) d ⟨before, by rw [hsplit, hpast]; simp, rfl⟩
    have hbetween : ∀ past rest, es = past ++ rest →
        (c.replay past).2.machine.status.interruptDisable = true := by
      rintro past rest rfl
      exact hpoint _ _ (c.comesTo_replay past rest)
    refine ⟨hpoint, hbetween, ?_⟩
    intro past rest hes
    exact congrArg (Prod.mk Answer.done) (irq_of_masked (hbetween past _ hes))
  · intro hmask m bus
    have htaken : c.irq = { c with machine := m.irq, remaining := irqCycles } :=
      if_neg (by rw [hmask]; decide)
    rw [htaken, Machine.irq, Machine.interrupt_eq, Status.toByte_interruptDisable]
    rfl

/-- A processor about to pull a status that keeps interrupts masked. -/
def keeping : Cpu Memory where
  machine := { Machine.blank ((Memory.zero.set 0x0200 0x28).set 0x0100 0x04) with
    pc := 0x0200, sp := 0xFF, status := Status.powerOn.set .interruptDisable true }
  remaining := 0
  cycles := 0

/--
A pull and an interrupt that cannot be masked leave the mask; in the middle of an
instruction, an interrupt that is not masked is taken.
-/
theorem masked_until_lifted_keeping :
    keeping.machine.status.interruptDisable = true ∧
    ((keeping.replay [.irq, .tick, .nmi]).2.handle .irq).2 =
      (keeping.replay [.irq, .tick, .nmi]).2 ∧
    wrapping.machine.status.interruptDisable = false ∧ wrapping.remaining = 3 ∧
    wrapping.irq.machine.sp = 0xFE ∧ wrapping.irq.machine.status.interruptDisable = true ∧
    wrapping.irq.remaining = 7 := by
  have hopcode : keeping.machine.bus.get 0x0200 = 0x28 := by
    simp [keeping, Machine.blank, Memory.get_set]
  have hlookup : Opcode.lookup (Bus.read keeping.machine.bus keeping.machine.pc) =
      some ⟨.plp, .implied, 4⟩ := by
    show Opcode.lookup (keeping.machine.bus.get 0x0200) = _
    rw [hopcode]
    decide +kernel
  have hpulled : keeping.machine.pull.1 = 0x04 := by
    show keeping.machine.bus.get 0x0100 = 0x04
    simp [keeping, Machine.blank]
  have hlift : ∀ c' rest d, keeping.ComesTo [.irq, .tick, .nmi, .irq] c' (.tick :: rest) →
      c'.Fetches d → ¬d.LiftsMask c'.machine := by
    rintro c' rest d ⟨past, hsplit, rfl⟩ hd
    have hevents : [.irq, .tick, .nmi, .irq] = past ++ Event.tick :: rest := hsplit
    have hpast : past = [.irq] := by
      rcases past with _ | ⟨first, _ | ⟨second, past⟩⟩
      · exact absurd hevents (by simp)
      · rw [(List.cons.inj hevents).1]
      · have htick : Event.tick ∈ [Event.nmi, .irq] := by
          rw [(List.cons.inj (List.cons.inj hevents).2).2]
          simp
        exact absurd htick (by simp)
    rw [hpast] at hd ⊢
    obtain ⟨d', hd', hinstruction⟩ := exists_fetches_of_lookup (c := keeping) rfl hlookup
    obtain rfl := hd.unique (c := keeping) hd'
    show ¬d.LiftsMask keeping.machine
    rw [Decoded.LiftsMask, hinstruction, hpulled]
    decide
  obtain ⟨-, -, hirq⟩ := (masked_until_lifted keeping).1 rfl [.irq, .tick, .nmi, .irq]
    (by decide) hlift
  have htaken := (masked_until_lifted wrapping).2 rfl
  refine ⟨rfl, ?_, rfl, rfl, ?_, ?_, ?_⟩
  · rw [hirq [.irq, .tick, .nmi] [] rfl]
  · rw [htaken]
    rfl
  · rw [htaken]
  · rw [htaken]

end Cpu

end Nmos6502
