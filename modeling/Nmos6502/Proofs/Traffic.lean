/-
What goes over the bus.

`Decoded.sends` tells, from the machine before an instruction, which bytes the
instruction sends to which addresses and in which order; `Cpu.sends` tells it of an
event and `Cpu.traffic` of a history.  The bus afterwards is the bus before with those
bytes sent to it, `bus_handle` and `bus_replay`.  Nothing is asked of the bus, so this
leaves no room for a write too many, too few or out of order: a bus that records them
has exactly these in its record.

In memory, a cell outside the stack page is then changed by stores alone.  What goes to
the stack goes to the stack page, and everything else that goes over the bus is the one
byte of an instruction that writes its operand.
-/
import Nmos6502.Bus.Recorded
import Nmos6502.Proofs.Footprint
import Nmos6502.Proofs.Stutter

namespace Nmos6502

/-! ### Sending a row of bytes -/

namespace Bus

variable {σ : Type} [Bus σ]

/-- The bus after bytes have been sent over it, each to its address, first to last. -/
def sendAll (bus : σ) : List (Address × Byte) → σ
  | [] => bus
  | w :: ws => sendAll (write bus w.1 w.2) ws

theorem sendAll_append (bus : σ) (ws ws' : List (Address × Byte)) :
    sendAll bus (ws ++ ws') = sendAll (sendAll bus ws) ws' := by
  induction ws generalizing bus with
  | nil => rfl
  | cons w ws ih => exact ih (write bus w.1 w.2)

end Bus

/-- A recorded bus remembers them in their order. -/
theorem Recorded.writes_sendAll {σ : Type} [Bus σ] (r : Recorded σ) (ws : List (Address × Byte)) :
    (Bus.sendAll r ws).writes.toList = r.writes.toList ++ ws := by
  induction ws generalizing r with
  | nil => rw [Bus.sendAll, List.append_nil]
  | cons w ws ih =>
      rw [Bus.sendAll, ih]
      show (r.writes.push w).toList ++ ws = _
      rw [Array.toList_push, List.append_assoc, List.singleton_append]

/-- A cell that has changed was sent a byte. -/
theorem Memory.exists_mem_of_get_sendAll_ne {ws : List (Address × Byte)} {a : Address} :
    ∀ {m : Memory}, (Bus.sendAll m ws).get a ≠ m.get a → ∃ v, (a, v) ∈ ws := by
  induction ws with
  | nil => intro m h; exact absurd rfl h
  | cons w ws ih =>
      intro m h
      by_cases haddress : w.1 = a
      · exact ⟨w.2, by rw [← haddress]; exact List.mem_cons_self⟩
      · rw [Bus.sendAll, ← get_set_ne m haddress w.2] at h
        obtain ⟨v, hv⟩ := ih h
        exact ⟨v, List.mem_cons_of_mem _ hv⟩

/-! ### What the stack sends -/

/-- The writes of a row of pushes from a stack pointer on. -/
def pushes (sp : Byte) : List Byte → List (Address × Byte)
  | [] => []
  | b :: bs => (0x0100 ||| sp.toUInt16, b) :: pushes (sp - 1) bs

/-- The byte that is pushed last is sent last. -/
theorem exists_pushes_concat (sp : Byte) (bs : List Byte) (b : Byte) :
    ∃ frame cell, pushes sp (bs ++ [b]) = frame ++ [(cell, b)] := by
  induction bs generalizing sp with
  | nil => exact ⟨[], _, rfl⟩
  | cons b' bs ih =>
      obtain ⟨frame, cell, hrest⟩ := ih (sp - 1)
      exact ⟨_ :: frame, cell, by rw [List.cons_append, pushes, hrest]; rfl⟩

/-- They go to the stack page. -/
theorem mem_pushes {a : Address} {v : Byte} {bs : List Byte} :
    ∀ {sp : Byte}, (a, v) ∈ pushes sp bs → 0x0100 ≤ a ∧ a ≤ 0x01FF := by
  have hpage : ∀ p : Byte, 0x0100 ≤ 0x0100 ||| p.toUInt16 ∧ 0x0100 ||| p.toUInt16 ≤ 0x01FF := by
    apply forall_byte
    decide +kernel
  induction bs with
  | nil => intro sp h; exact absurd h List.not_mem_nil
  | cons b bs ih =>
      intro sp h
      rcases List.mem_cons.mp h with hfirst | hrest
      · rw [(Prod.mk.inj hfirst).1]
        exact hpage sp
      · exact ih hrest

theorem notMem_pushes {a : Address} (ha : a < 0x0100 ∨ 0x01FF < a) {v sp : Byte}
    {bs : List Byte} : (a, v) ∉ pushes sp bs := by
  intro hmem
  obtain ⟨hlow, hhigh⟩ := mem_pushes hmem
  rcases ha with ha | ha
  · exact UInt16.not_le.mpr ha hlow
  · exact UInt16.not_le.mpr ha hhigh

namespace Machine

variable {σ : Type} [Bus σ]

theorem bus_push (m : Machine σ) (v : Byte) :
    (m.push v).bus = Bus.sendAll m.bus (pushes m.sp [v]) := by
  rw [pushes, ← stackCell_eq_or]
  rfl

theorem bus_pushWord (m : Machine σ) (w : Address) :
    (m.pushWord w).bus = Bus.sendAll m.bus (pushes m.sp [highByte w, lowByte w]) := by
  rw [pushWord, bus_push, bus_push, ← Bus.sendAll_append]
  rfl

/-- A word and a byte behind it, as interrupts of all kinds push them. -/
theorem bus_push_pushWord (m : Machine σ) (w : Address) (v : Byte) :
    ((m.pushWord w).push v).bus =
      Bus.sendAll m.bus (pushes m.sp [highByte w, lowByte w, v]) := by
  rw [bus_push, bus_pushWord, ← Bus.sendAll_append]
  rfl

theorem bus_pushStatus_pushWord (m : Machine σ) (w : Address) :
    (m.pushWord w).pushStatus.bus =
      Bus.sendAll m.bus (pushes m.sp [highByte w, lowByte w, m.status.pushedByProgram]) :=
  bus_push_pushWord m w _

theorem bus_interrupt (m : Machine σ) (vector : Address) :
    (m.interrupt vector).bus =
      Bus.sendAll m.bus (pushes m.sp [highByte m.pc, lowByte m.pc, m.status.toByte]) := by
  rw [interrupt, bus_goThrough]
  exact bus_push_pushWord m m.pc _

theorem bus_irq (m : Machine σ) :
    m.irq.bus =
      Bus.sendAll m.bus (pushes m.sp [highByte m.pc, lowByte m.pc, m.status.toByte ||| 0x04]) := by
  rw [← Status.toByte_interruptDisable]
  exact bus_interrupt { m with status := { m.status with interruptDisable := true } } irqVector

theorem bus_breakProgram (m : Machine σ) :
    m.breakProgram.bus = Bus.sendAll m.bus
      (pushes m.sp [highByte (m.pc + 1), lowByte (m.pc + 1), m.status.toByte ||| 0x34]) := by
  rw [← Status.pushedByProgram_interruptDisable, breakProgram, bus_goThrough]
  exact bus_pushStatus_pushWord { m with status := { m.status with interruptDisable := true } } _

end Machine

/-! ### What an instruction sends -/

namespace Decoded

variable {σ : Type} [Bus σ]

/--
What a decoded instruction sends over the bus, told from the machine before it.  An
address that is pushed is counted from the instruction's own.
-/
def sends (d : Decoded) (m : Machine σ) : List (Address × Byte) :=
  match d.instruction with
  | .sta => [(d.operand.effectiveAddress, m.a)]
  | .stx => [(d.operand.effectiveAddress, m.x)]
  | .sty => [(d.operand.effectiveAddress, m.y)]
  | .inc | .dec => [(d.operand.effectiveAddress, d.result m)]
  | .asl | .lsr | .rol | .ror =>
      match d.operand with
      | .address cell => [(cell, d.result m)]
      | _ => []
  | .pha => pushes m.sp [m.a]
  | .php => pushes m.sp [m.status.toByte ||| 0x30]
  | .jsr => pushes m.sp [highByte (m.pc + 2), lowByte (m.pc + 2)]
  | .brk => pushes m.sp [highByte (m.pc + 2), lowByte (m.pc + 2), m.status.toByte ||| 0x34]
  | _ => []

end Decoded

namespace Machine

variable {σ : Type} [Bus σ] {m : Machine σ} {d : Decoded}

/-- **An instruction sends what is told of it, and nothing else.** -/
theorem bus_perform_eq_sendAll (hd : decode m.bus m.pc m.x m.y = some d) :
    ((m.past d).perform d.operand d.instruction.family).bus =
      Bus.sendAll m.bus (d.sends m) := by
  have huse := usesOperand_perform hd
  have hresult := d.result_of_family m
  unfold Decoded.UsesOperand at huse
  rw [Decoded.sends]
  cases hi : d.instruction with
  | sta | stx | sty =>
      rw [hi] at huse
      obtain ⟨cell, hcell, hafter⟩ := huse
      rw [hafter, hcell]
      rfl
  | inc | dec =>
      rw [hi] at huse hresult
      rcases huse with ⟨cell, hcell, hafter⟩ | ⟨hacc, -⟩
      · replace hresult : d.result m = _ := hresult
        rw [hafter, hresult, hcell]
        rfl
      · exact absurd hacc (operand_ne_accumulator hd (by simp [hi]))
  | asl | lsr | rol | ror =>
      rw [hi] at huse hresult
      rcases huse with ⟨cell, hcell, hafter⟩ | ⟨hacc, hafter⟩
      · replace hresult : d.result m = _ := hresult
        rw [hafter, hcell, hresult, hcell]
        rfl
      · rw [hafter, hacc]
        rfl
  | pha => exact bus_push _ _
  | php =>
      rw [← Status.pushedByProgram_eq]
      exact bus_push _ _
  | jsr =>
      rw [← pc_past_of_call hd (by rw [hi]; rfl)]
      show ((m.past d).pushWord ((m.past d).pc - 1)).bus = _
      rw [bus_pushWord]
      rfl
  | brk =>
      rw [← pc_past_of_breakProgram hd (by rw [hi]; rfl)]
      exact bus_breakProgram _
  | bcc | bcs | bne | beq | bpl | bmi | bvc | bvs =>
      obtain ⟨a, ha⟩ := exists_perform_branch (m.past d) d.operand _ _
      exact congrArg (·.bus) ha
  | lda | ldx | ldy | adc | sbc | and | ora | eor | cmp | cpx | cpy | bit =>
      exact bus_consume _ _ _
  | tax | tay | txa | tya | tsx | inx | iny | dex | dey | pla => exact bus_setResult _ _ _
  | txs => exact bus_set _ _ _
  | _ => rfl

end Machine

/-- An instruction that sends a byte outside the stack page writes the cell of its operand. -/
theorem Decoded.operand_of_mem_sends {σ : Type} [Bus σ] {m : Machine σ} {d : Decoded}
    (hd : decode m.bus m.pc m.x m.y = some d) {a : Address} {v : Byte}
    (hw : (a, v) ∈ d.sends m) (ha : a < 0x0100 ∨ 0x01FF < a) :
    d.instruction ∈ [Instruction.sta, .stx, .sty, .inc, .dec, .asl, .lsr, .rol, .ror] ∧
      d.operand = .address a := by
  have huse := Machine.usesOperand_perform hd
  unfold UsesOperand at huse
  rw [sends] at hw
  cases hi : d.instruction with
  | sta | stx | sty =>
      rw [hi] at huse hw
      obtain ⟨cell, hcell, -⟩ := huse
      rw [hcell] at hw
      obtain rfl : a = cell := (Prod.mk.inj (List.mem_singleton.mp hw)).1
      exact ⟨by decide, hcell⟩
  | inc | dec =>
      rw [hi] at huse hw
      rcases huse with ⟨cell, hcell, -⟩ | ⟨hacc, -⟩
      · rw [hcell] at hw
        obtain rfl : a = cell := (Prod.mk.inj (List.mem_singleton.mp hw)).1
        exact ⟨by decide, hcell⟩
      · exact absurd hacc (operand_ne_accumulator hd (by simp [hi]))
  | asl | lsr | rol | ror =>
      rw [hi] at huse hw
      rcases huse with ⟨cell, hcell, -⟩ | ⟨hacc, -⟩
      · rw [hcell] at hw
        obtain rfl : a = cell := (Prod.mk.inj (List.mem_singleton.mp hw)).1
        exact ⟨by decide, hcell⟩
      · rw [hacc] at hw
        exact absurd hw List.not_mem_nil
  | pha | php | jsr | brk =>
      rw [hi] at hw
      exact absurd hw (notMem_pushes ha)
  | _ =>
      rw [hi] at hw
      exact absurd hw List.not_mem_nil

/-! ### What an event sends -/

namespace Cpu

variable {σ : Type} [Bus σ]

/--
What an event sends over the bus, told from the processor before it.  Rows of ticks and
questions have no part in this.
-/
def sends (c : Cpu σ) : Event → List (Address × Byte)
  | .tick =>
      if c.ready then
        match decode c.machine.bus c.machine.pc c.machine.x c.machine.y with
        | some d => d.sends c.machine
        | none => []
      else []
  | .irq =>
      let m := c.machine
      if m.status.interruptDisable then []
      else pushes m.sp [highByte m.pc, lowByte m.pc, m.status.toByte ||| 0x04]
  | .nmi =>
      let m := c.machine
      pushes m.sp [highByte m.pc, lowByte m.pc, m.status.toByte]
  | .write a v => [(a, v)]
  | _ => []

theorem sends_of_busy {c : Cpu σ} (h : c.ready = false) : c.sends .tick = [] := by
  simp [sends, h]

theorem sends_of_decode_none {c : Cpu σ}
    (h : decode c.machine.bus c.machine.pc c.machine.x c.machine.y = none) :
    c.sends .tick = [] := by
  simp [sends, h]

theorem sends_of_fetches {c : Cpu σ} {d : Decoded} (h : c.Fetches d) :
    c.sends .tick = d.sends c.machine := by
  simp [sends, h.ready, h.found]

theorem bus_tick (c : Cpu σ) :
    c.tick.2.machine.bus = Bus.sendAll c.machine.bus (c.sends .tick) := by
  rcases c.busy_or_fetches with hbusy | ⟨hready, hnone⟩ | ⟨d, hd⟩
  · rw [tick_of_busy hbusy, sends_of_busy hbusy]
    rfl
  · rw [tick_of_decode_none hready hnone, sends_of_decode_none hnone]
    rfl
  · rw [tick_of_fetches hd, sends_of_fetches hd]
    exact Machine.bus_perform_eq_sendAll hd.found

/-- **An event sends what is told of it, and nothing else.** -/
theorem bus_handle (c : Cpu σ) {e : Event} (helem : e.elementary = true) :
    (c.handle e).2.machine.bus = Bus.sendAll c.machine.bus (c.sends e) := by
  cases e with
  | tick => exact bus_tick c
  | irq =>
      show c.irq.machine.bus = _
      rw [machine_irq]
      by_cases hmasked : c.machine.status.interruptDisable = true
      · simp only [sends, hmasked, if_true]
        rfl
      · simp only [sends, hmasked]
        exact Machine.bus_irq c.machine
  | nmi => exact Machine.bus_interrupt c.machine nmiVector
  | setRegister r v => exact Machine.bus_set c.machine r v
  | step | run budget | disassemble start last =>
      exact absurd helem (by simp [Event.elementary])
  | _ => rfl

/-! ### What a history sends -/

/-- Everything that a history sends over the bus. -/
def traffic (c : Cpu σ) : List Event → List (Address × Byte)
  | [] => []
  | e :: es => c.sends e ++ (c.handle e).2.traffic es

theorem bus_replay {es : List Event} :
    ∀ {c : Cpu σ}, (∀ e ∈ es, e.elementary = true) →
      (c.replay es).2.machine.bus = Bus.sendAll c.machine.bus (c.traffic es) := by
  induction es with
  | nil => intro c _; rfl
  | cons e es ih =>
      intro c helem
      have htail := ih (c := (c.handle e).2) fun e' he' => helem e' (List.mem_cons_of_mem _ he')
      rw [traffic, Bus.sendAll_append, ← bus_handle c (helem e List.mem_cons_self)]
      exact htail

/-- What has been sent was sent by an event. -/
theorem exists_event_of_mem_traffic {w : Address × Byte} {es : List Event} :
    ∀ {c : Cpu σ}, w ∈ c.traffic es →
      ∃ past e rest, es = past ++ e :: rest ∧ w ∈ (c.replay past).2.sends e := by
  induction es with
  | nil => intro c h; exact absurd h List.not_mem_nil
  | cons e es ih =>
      intro c h
      rcases List.mem_append.mp h with hfirst | hlater
      · exact ⟨[], e, es, rfl, hfirst⟩
      · obtain ⟨past, e', rest, hes, hw⟩ := ih hlater
        exact ⟨e :: past, e', rest, by rw [hes]; rfl, hw⟩

/-- Outside the stack page, only the host and the instructions that write their operand send. -/
theorem fetches_of_mem_sends {c : Cpu σ} {e : Event} {a : Address} {v : Byte}
    (hw : (a, v) ∈ c.sends e) (ha : a < 0x0100 ∨ 0x01FF < a) (hhost : ∀ b, e ≠ .write a b) :
    e = .tick ∧ ∃ d, c.Fetches d ∧
      d.instruction ∈ [Instruction.sta, .stx, .sty, .inc, .dec, .asl, .lsr, .rol, .ror] ∧
      d.operand = .address a := by
  cases e with
  | tick =>
      rcases c.busy_or_fetches with hbusy | ⟨-, hnone⟩ | ⟨d, hd⟩
      · rw [sends_of_busy hbusy] at hw
        exact absurd hw List.not_mem_nil
      · rw [sends_of_decode_none hnone] at hw
        exact absurd hw List.not_mem_nil
      · rw [sends_of_fetches hd] at hw
        exact ⟨rfl, d, hd, Decoded.operand_of_mem_sends hd.found hw ha⟩
  | irq =>
      rw [sends] at hw
      split at hw
      · exact absurd hw List.not_mem_nil
      · exact absurd hw (notMem_pushes ha)
  | nmi => exact absurd hw (notMem_pushes ha)
  | write b u =>
      obtain ⟨rfl, rfl⟩ := Prod.mk.inj (List.mem_singleton.mp hw)
      exact absurd rfl (hhost v)
  | _ => exact absurd hw List.not_mem_nil

/--
**Nothing goes over the bus but what is told of each event.**  On a bus that records,
every event appends to the record what `sends` tells of it: the one byte of a store or
of an instruction that works on a cell, the frame of a push, a call or an interrupt, and
nothing for anything else.  Over a history in plain memory, a cell outside the stack
page that the host does not write itself has therefore changed only if a tick fetched an
instruction that writes its operand, with that cell for its operand.
-/
theorem writes_eq_sends :
    (∀ {σ : Type} [Bus σ] (c : Cpu (Recorded σ)) (e : Event), e.elementary = true →
      (c.handle e).2.machine.bus.writes.toList = c.machine.bus.writes.toList ++ c.sends e) ∧
    ∀ (c : Cpu Memory) (es : List Event) (a : Address),
      (∀ e ∈ es, e.elementary = true ∧ ∀ v, e ≠ .write a v) →
      (a < 0x0100 ∨ 0x01FF < a) →
      (c.replay es).2.machine.bus.get a ≠ c.machine.bus.get a →
      ∃ past rest d, es = past ++ .tick :: rest ∧ (c.replay past).2.Fetches d ∧
        d.instruction ∈ [Instruction.sta, .stx, .sty, .inc, .dec, .asl, .lsr, .rol, .ror] ∧
        d.operand = .address a := by
  refine ⟨?_, ?_⟩
  · intro σ _ c e helem
    rw [bus_handle c helem, Recorded.writes_sendAll]
  · intro c es a hes ha hchanged
    rw [bus_replay fun e he => (hes e he).1] at hchanged
    obtain ⟨v, hv⟩ := Memory.exists_mem_of_get_sendAll_ne hchanged
    obtain ⟨past, e, rest, hsplit, hw⟩ := exists_event_of_mem_traffic hv
    have he : e ∈ es := by
      rw [hsplit]
      exact List.mem_append_right _ List.mem_cons_self
    obtain ⟨rfl, d, hd, hinstruction, hoperand⟩ := fetches_of_mem_sends hw ha (hes e he).2
    exact ⟨past, rest, d, hsplit, hd, hinstruction, hoperand⟩

/-- A processor whose next pushes go around the end of the stack page. -/
def wrapping : Cpu (Recorded Memory) where
  machine := { Machine.blank (Recorded.start Memory.zero) with pc := 0x1234, sp := 0x01 }
  remaining := 3
  cycles := 0

/-- An interrupt around the end of the stack page, and an increment of its own opcode. -/
theorem writes_eq_sends_wrapping :
    (wrapping.handle .nmi).2.machine.bus.writes.toList =
      [(0x0101, 0x12), (0x0100, 0x34), (0x01FF, 0x20)] ∧
    ∃ past rest d, [Event.tick] = past ++ .tick :: rest ∧ (selfIncrement.replay past).2.Fetches d ∧
        d.instruction ∈ [Instruction.sta, .stx, .sty, .inc, .dec, .asl, .lsr, .rol, .ror] ∧
        d.operand = .address 0xFFFE := by
  have hfetches : selfIncrement.Fetches _ := ⟨rfl, decode_selfIncrement⟩
  have hone (c : Cpu Memory) : (c.replay [.tick]).2 = c.tick.2 := rfl
  have hafter : selfIncrement.tick.2.machine.bus.get 0xFFFE = 0xEF := by
    rw [bus_tick, sends_of_fetches hfetches]
    simp [Decoded.sends, Decoded.result, Bus.sendAll, Machine.operandValue,
      Operand.effectiveAddress, selfIncrement, Machine.blank, Memory.get_set]
  refine ⟨?_, ?_⟩
  · rw [writes_eq_sends.1 wrapping .nmi rfl]
    rfl
  · apply writes_eq_sends.2 selfIncrement [.tick] 0xFFFE
    · simp [Event.elementary]
    · decide
    · rw [hone, hafter]
      simp [selfIncrement, Machine.blank, Memory.get_set]

end Cpu

end Nmos6502
