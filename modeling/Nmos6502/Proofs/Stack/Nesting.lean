/-
What is opened on the stack is closed as it was opened.

`WellNested` are the histories in which a frame is taken off by its own kind, nothing
else moves the stack pointer, the frames fit into the ring and no store hits one.
`Standing` is the invariant that carries through them: the frames lie above the stack
pointer one behind the other, and each still holds the bytes that its opening pushed.
-/
import Nmos6502.Event
import Nmos6502.Proofs.Stack.Frames
import Nmos6502.Proofs.Stutter

namespace Nmos6502

/-! ### Well-nested histories -/

/-- The event opens a frame. -/
inductive Cpu.Opens (c : Cpu Memory) : Event → Opener → Prop
  | instruction {d : Decoded} {o : Opener} (hd : c.Fetches d)
      (ho : d.instruction.family.opener? = some o) : Opens c .tick o
  | irq (h : c.machine.status.interruptDisable = false) : Opens c .irq .irq
  | nmi : Opens c .nmi .nmi

/-- The next tick closes a frame. -/
def Cpu.Closes (c : Cpu Memory) (k : Closer) : Prop :=
  ∃ d, c.Fetches d ∧ d.instruction.family.closer? = some k

/--
An event that keeps to the discipline, with the frames before and after it.  A closing
finds its own kind on top, an opening finds room, and an instruction that is neither
leaves the stack pointer and the cells of the frames alone.
-/
inductive Disciplined (c : Cpu Memory) : List Frame → Event → List Frame → Prop
  | waits {frames : List Frame} (h : c.ready = false) : Disciplined c frames .tick frames
  | stepsOver {frames : List Frame} (hready : c.ready = true)
      (hd : decode c.machine.bus c.machine.pc c.machine.x c.machine.y = none) :
      Disciplined c frames .tick frames
  | passes {frames : List Frame} {d : Decoded} (hd : c.Fetches d)
      (hopener : d.instruction.family.opener? = none)
      (hcloser : d.instruction.family.closer? = none)
      (hsp : (c.handle .tick).2.machine.sp = c.machine.sp)
      (hcells : d.instruction.family.writesOperand = true →
        ∀ cell, d.operand = .address cell → ∀ f ∈ frames, cell ∉ f.cells) :
      Disciplined c frames .tick frames
  | opens {frames : List Frame} {e : Event} {o : Opener} (ho : c.Opens e o)
      (hroom : (outstanding (⟨o, c.machine⟩ :: frames)).length ≤ 256) :
      Disciplined c frames e (⟨o, c.machine⟩ :: frames)
  | closes {frames : List Frame} {f : Frame} {k : Closer} (hk : c.Closes k)
      (hshape : k.shape = f.opener.shape) : Disciplined c (f :: frames) .tick frames
  | masked {frames : List Frame} (h : c.machine.status.interruptDisable = true) :
      Disciplined c frames .irq frames

/-- The histories that keep to the discipline, with the frames that they leave open. -/
inductive WellNested (start : Cpu Memory) : List Event → List Frame → Prop
  | nil : WellNested start [] []
  | next {es : List Event} {e : Event} {frames frames' : List Frame}
      (run : WellNested start es frames)
      (step : Disciplined (start.replay es).2 frames e frames') :
      WellNested start (es ++ [e]) frames'

/-! ### The frames lie on the stack -/

/-- Each frame was opened at the stack pointer that the frames above it leave. -/
def Chained : Byte → List Frame → Prop
  | _, [] => True
  | sp, f :: frames =>
      f.before.sp = sp + UInt8.ofNat f.opener.shape.size ∧ Chained f.before.sp frames

/-- The frames lie above the stack pointer and hold what was pushed. -/
structure Standing (m : Machine Memory) (frames : List Frame) : Prop where
  chained : Chained m.sp frames
  above : m.bus.Above m.sp (outstanding frames)
  room : (outstanding frames).length ≤ 256

theorem length_outstanding_cons (f : Frame) (frames : List Frame) :
    (outstanding (f :: frames)).length = f.opener.shape.size + (outstanding frames).length := by
  rw [outstanding, List.flatMap_cons, List.length_append, f.length_bytes]
  rfl

/-- The cells of the frames are those above the stack pointer. -/
theorem exists_frame_of_mem_cellsAbove {a : Address} :
    ∀ {frames : List Frame} {sp : Byte}, Chained sp frames →
      a ∈ cellsAbove sp (outstanding frames).length → ∃ f ∈ frames, a ∈ f.cells := by
  intro frames
  induction frames with
  | nil => intro sp _ h; exact absurd h (by simp [outstanding, cellsAbove])
  | cons f frames ih =>
      intro sp hchained h
      obtain ⟨hbefore, hrest⟩ := hchained
      rw [length_outstanding_cons, cellsAbove_add, ← hbefore] at h
      rcases List.mem_append.mp h with hmem | hmem
      · refine ⟨f, by simp, ?_⟩
        rw [Frame.cells, hbefore, UInt8.add_sub_cancel]
        exact hmem
      · obtain ⟨g, hg, ha⟩ := ih hrest hmem
        exact ⟨g, by simp [hg], ha⟩

namespace Standing

variable {m m' : Machine Memory} {f : Frame} {frames : List Frame}

theorem of_eq (h : Standing m frames) (hsp : m'.sp = m.sp) (hbus : m'.bus = m.bus) :
    Standing m' frames := by
  refine ⟨?_, ?_, h.room⟩
  · rw [hsp]
    exact h.chained
  · rw [hsp, hbus]
    exact h.above

/-- A store that hits no frame leaves them standing. -/
theorem of_write (h : Standing m frames) {cell : Address} {v : Byte} (hsp : m'.sp = m.sp)
    (hbus : m'.bus = m.bus.set cell v) (hcell : ∀ f ∈ frames, cell ∉ f.cells) :
    Standing m' frames := by
  refine ⟨?_, ?_, h.room⟩
  · rw [hsp]
    exact h.chained
  · rw [hsp, hbus]
    refine Memory.above_set v h.above ?_
    intro hmem
    obtain ⟨g, hg, hcells⟩ := exists_frame_of_mem_cellsAbove h.chained hmem
    exact hcell g hg hcells

/-- Pushing the bytes of a frame puts it on top. -/
theorem of_push (h : Standing m frames) {o : Opener}
    (hroom : (outstanding (⟨o, m⟩ :: frames)).length ≤ 256)
    (hsp : m'.sp = (m.pushAll (Frame.mk o m).bytes).sp)
    (hbus : m'.bus = (m.pushAll (Frame.mk o m).bytes).bus) : Standing m' (⟨o, m⟩ :: frames) := by
  have hbefore := m.sp_pushAll (Frame.mk o m).bytes
  rw [Frame.length_bytes] at hbefore
  refine ⟨⟨?_, h.chained⟩, ?_, hroom⟩
  · rw [hsp]
    exact hbefore
  · rw [hsp, hbus]
    refine Machine.above_pushAll h.above ?_
    rw [← List.length_append]
    exact hroom

/-- Pulling the frame on top leaves the others. -/
theorem of_pull (h : Standing m (f :: frames))
    (hsp : m'.sp = m.sp + UInt8.ofNat f.opener.shape.size) (hbus : m'.bus = m.bus) :
    Standing m' frames := by
  obtain ⟨hbefore, hrest⟩ := h.chained
  have hroom := h.room
  rw [length_outstanding_cons] at hroom
  have habove := (Memory.above_append h.above).2
  rw [f.length_bytes] at habove
  refine ⟨?_, ?_, by omega⟩
  · rw [hsp, ← hbefore]
    exact hrest
  · rw [hsp, hbus]
    exact habove

end Standing

/-! ### What one event does to them -/

namespace Cpu

variable {c : Cpu Memory}

theorem machine_of_fetches {d : Decoded} (h : c.Fetches d) :
    (c.handle .tick).2.machine =
      (c.machine.past d).perform d.operand d.instruction.family := by
  show c.tick.2.machine = _
  rw [tick_of_fetches h]

/-- An opening pushes the bytes of its frame. -/
theorem Opens.pushes {e : Event} {o : Opener} (h : c.Opens e o) :
    let m' := (c.handle e).2.machine
    let pushed := c.machine.pushAll (Frame.mk o c.machine).bytes
    m'.sp = pushed.sp ∧ m'.bus = pushed.bus := by
  intro m' pushed
  cases h with
  | instruction hd ho =>
      have hm' : m' = _ := machine_of_fetches hd
      rw [hm']
      exact Machine.perform_of_opener hd.found ho
  | irq h =>
      have hm' : m' = c.machine.irq := by
        show c.irq.machine = _
        rw [machine_irq, if_neg (by simp [h])]
      rw [hm']
      exact ⟨rfl, rfl⟩
  | nmi => exact ⟨rfl, rfl⟩

/-- A closing moves the stack pointer over its frame and writes nothing. -/
theorem Closes.pulls {k : Closer} (h : c.Closes k) :
    let m' := (c.handle .tick).2.machine
    m'.sp = c.machine.sp + UInt8.ofNat k.shape.size ∧ m'.bus = c.machine.bus := by
  intro m'
  obtain ⟨d, hd, hk⟩ := h
  have hm' : m' = _ := machine_of_fetches hd
  rw [hm']
  exact Machine.perform_of_closer _ _ hk

/-- **Every event that keeps to the discipline leaves the frames standing.** -/
theorem standing_handle {frames frames' : List Frame} {e : Event}
    (h : Standing c.machine frames) (hstep : Disciplined c frames e frames') :
    Standing (c.handle e).2.machine frames' := by
  cases hstep with
  | waits hbusy =>
      have hcounts : c.counts .tick = true := by simp [counts, hbusy]
      rw [handle_of_counts hcounts]
      exact h.of_eq rfl rfl
  | stepsOver hready hd =>
      refine h.of_eq ?_ ?_
      · show c.tick.2.machine.sp = _
        rw [tick_of_decode_none hready hd]
      · show c.tick.2.machine.bus = _
        rw [tick_of_decode_none hready hd]
  | passes hd hopener _ hsp hcells =>
      rcases Machine.bus_perform hd.found hopener with hbus | ⟨hwrites, cell, v, hcell, hbus⟩
      · rw [← machine_of_fetches hd] at hbus
        exact h.of_eq hsp hbus
      · rw [← machine_of_fetches hd] at hbus
        exact h.of_write hsp hbus (hcells hwrites cell hcell)
  | opens ho hroom =>
      obtain ⟨hsp, hbus⟩ := ho.pushes
      exact h.of_push hroom hsp hbus
  | closes hk hshape =>
      obtain ⟨hsp, hbus⟩ := hk.pulls
      rw [hshape] at hsp
      exact h.of_pull hsp hbus
  | masked hmask =>
      have hm' : (c.handle .irq).2.machine = c.machine := by
        show c.irq.machine = _
        rw [machine_irq, if_pos hmask]
      rw [hm']
      exact h

end Cpu

/-! ### Whole histories -/

namespace WellNested

variable {start : Cpu Memory} {es : List Event} {frames : List Frame}

theorem replay_concat (c : Cpu Memory) (es : List Event) (e : Event) :
    (c.replay (es ++ [e])).2 = ((c.replay es).2.handle e).2 :=
  Cpu.replay_append es [e] c

/-- **The frames of a well-nested history stand at its end.** -/
theorem standing (run : WellNested start es frames) :
    Standing (start.replay es).2.machine frames := by
  induction run with
  | nil => exact ⟨trivial, trivial, by simp [outstanding]⟩
  | next _ step ih =>
      rw [replay_concat]
      exact Cpu.standing_handle ih step

/-- The frame was opened in the history, on top of the frames `below`. -/
def OpenedIn (start : Cpu Memory) (es : List Event) (f : Frame) (below : List Frame) : Prop :=
  ∃ past e since, es = past ++ e :: since ∧ WellNested start past below ∧
    (start.replay past).2.Opens e f.opener ∧ f.before = (start.replay past).2.machine

theorem OpenedIn.concat {f : Frame} {below : List Frame} (h : OpenedIn start es f below)
    (e : Event) : OpenedIn start (es ++ [e]) f below := by
  obtain ⟨past, opening, since, hes, hpast, hopens, hbefore⟩ := h
  refine ⟨past, opening, since ++ [e], ?_, hpast, hopens, hbefore⟩
  rw [hes, List.append_assoc]
  rfl

/-- Every frame was opened in the history, on top of the frames below it. -/
theorem openedIn (run : WellNested start es frames) :
    ∀ (above : List Frame) {f : Frame} {below : List Frame}, frames = above ++ f :: below →
      OpenedIn start es f below := by
  induction run with
  | nil => intro above f below h; exact absurd h (by simp)
  | @next es e frames frames' run step ih =>
      intro above f below h
      cases step with
      | @opens _ _ o ho hroom =>
          cases above with
          | nil =>
              obtain ⟨rfl, rfl⟩ := List.cons.inj h
              exact ⟨es, e, [], rfl, run, ho, rfl⟩
          | cons g above =>
              obtain ⟨-, hframes⟩ := List.cons.inj h
              exact (ih above hframes).concat e
      | @closes _ g k hk hshape =>
          have hframes : g :: frames' = (g :: above) ++ f :: below := by
            rw [h]
            rfl
          exact (ih (g :: above) hframes).concat .tick
      | _ => exact (ih above h).concat _

/-- A history stays well nested while the countdown runs. -/
theorem wait (run : WellNested start es frames) :
    ∀ {k : Nat}, k ≤ (start.replay es).2.remaining.toNat →
      WellNested start (es ++ List.replicate k .tick) frames := by
  intro k
  induction k with
  | zero => intro _; simpa using run
  | succ k ih =>
      intro hk
      have hreplay := Cpu.replay_append es (List.replicate k .tick) start
      obtain ⟨-, hremaining⟩ := Cpu.replay_replicate_tick k (start.replay es).2 (by omega)
      rw [← hreplay] at hremaining
      rw [List.replicate_succ', ← List.append_assoc]
      refine (ih (by omega)).next (.waits ?_)
      rw [Cpu.ready, beq_eq_false_iff_ne]
      intro hzero
      rw [hzero] at hremaining
      have : (0 : Byte).toNat = 0 := rfl
      omega

end WellNested

theorem Disciplined.of_closes {c : Cpu Memory} {frames frames' : List Frame} {k : Closer}
    (step : Disciplined c frames .tick frames') (hk : c.Closes k) :
    ∃ f, frames = f :: frames' ∧ k.shape = f.opener.shape := by
  obtain ⟨d, hd, hfam⟩ := hk
  cases step with
  | waits hbusy => exact absurd hd.ready (by simp [hbusy])
  | stepsOver _ hnone => exact absurd hd.found (by simp [hnone])
  | passes hd' _ hcloser =>
      rw [hd.unique hd', hcloser] at hfam
      exact absurd hfam (by simp)
  | opens ho hroom =>
      cases ho with
      | instruction hd' ho =>
          rw [hd.unique hd'] at hfam
          rw [Family.opener?_of_closer? hfam] at ho
          exact absurd ho (by simp)
  | @closes _ f k' hk' hshape =>
      obtain ⟨d', hd', hfam'⟩ := hk'
      rw [hd.unique hd', hfam'] at hfam
      obtain rfl := Option.some.inj hfam
      exact ⟨f, rfl, hshape⟩

/--
**What was opened is closed as it was opened.**  When a well-nested history comes to a
return or a pull, the frame that it takes off was opened in the history on top of what
is left now, and the machine after it has what that opening found.
-/
theorem closing_restores_opening {start : Cpu Memory} {es : List Event}
    {frames frames' : List Frame} {k : Closer} (run : WellNested start es frames)
    (step : Disciplined (start.replay es).2 frames .tick frames')
    (hk : (start.replay es).2.Closes k) :
    ∃ f, frames = f :: frames' ∧ WellNested.OpenedIn start es f frames' ∧
      k.shape = f.opener.shape ∧ f.Restores k (start.replay (es ++ [.tick])).2.machine := by
  obtain ⟨f, rfl, hshape⟩ := step.of_closes hk
  refine ⟨f, rfl, run.openedIn [] rfl, hshape, ?_⟩
  have hstanding := run.standing
  obtain ⟨d, hd, hfam⟩ := hk
  rw [WellNested.replay_concat, Cpu.machine_of_fetches hd]
  exact Machine.restores_perform _ hfam hshape hstanding.chained.1
    (Memory.above_append hstanding.above).1

/-- A processor about to run `JSR $0003`, to an `RTS`, at the bottom of the stack page. -/
def calling : Cpu Memory where
  machine := .blank (Memory.zero.load [0x20, 0x03, 0x00, 0x60] 0)
  remaining := 0
  cycles := 0

/-- The call that it is about to run. -/
def calling.call : Decoded where
  address := 0
  opcode := 0x20
  instruction := .jsr
  mode := .absolute
  operandBytes := [0x03, 0x00]
  operand := .address 3
  cycles := 6

theorem fetches_calling : calling.Fetches calling.call := by
  have hlookup : Opcode.lookup 0x20 = some ⟨.jsr, .absolute, 6⟩ := by decide +kernel
  refine ⟨rfl, ?_⟩
  simp [decode, calling, calling.call, Machine.blank, Memory.get_set, hlookup, Bus.readBytes,
    resolve, fetchWord, fetchByte, AddressingMode.operandLength, List.range_succ, wordOf]

theorem opens_calling : calling.Opens .tick .call := .instruction fetches_calling rfl

theorem remaining_calling : (calling.replay [.tick]).2.remaining.toNat = 6 := by
  show calling.tick.2.remaining.toNat = 6
  rw [Cpu.tick_of_fetches fetches_calling]
  rfl

/-- The call and the ticks that it takes. -/
def callTicks : List Event := [.tick] ++ List.replicate 6 .tick

theorem wellNested_callTicks : WellNested calling callTicks [⟨.call, calling.machine⟩] :=
  (WellNested.nil.next (.opens opens_calling (by decide))).wait
    (Nat.le_of_eq remaining_calling.symm)

theorem closes_callTicks : (calling.replay callTicks).2.Closes .returnFromCall := by
  have hlookup : Opcode.lookup 0x60 = some ⟨.rts, .implied, 6⟩ := by decide +kernel
  obtain ⟨hmachine, hremaining⟩ :=
    Cpu.replay_replicate_tick 6 _ (Nat.le_of_eq remaining_calling.symm)
  rw [← Cpu.replay_append] at hmachine hremaining
  have hready : (calling.replay callTicks).2.ready = true := by
    rw [remaining_calling] at hremaining
    exact beq_iff_eq.mpr (UInt8.toNat_inj.mp hremaining)
  have hcalled : (calling.replay callTicks).2.machine = (calling.handle .tick).2.machine :=
    hmachine
  have hpc : (calling.replay callTicks).2.machine.pc = 3 := by
    rw [hcalled, Cpu.machine_of_fetches fetches_calling]
    rfl
  have hpage : ∀ p, Machine.stackCell p ≠ 3 := by
    intro p h
    have hcell := congrArg UInt16.toNat h
    rw [Machine.toNat_stackCell] at hcell
    have : (3 : Address).toNat = 3 := rfl
    omega
  have hget : (calling.replay callTicks).2.machine.bus.get 3 = 0x60 := by
    rw [hcalled, opens_calling.pushes.2, Machine.get_pushAll _ hpage]
    simp [calling, Machine.blank]
  obtain ⟨d, hd, hinstruction⟩ := Cpu.exists_fetches_of_lookup hready (by
    rw [hpc, Memory.read_eq, hget]
    exact hlookup)
  refine ⟨d, hd, ?_⟩
  rw [hinstruction]
  rfl

/-- A frame that runs around the ring is taken off as it was put there. -/
theorem closing_restores_opening_calling :
    (calling.replay (callTicks ++ [.tick])).2.machine.pc = 3 ∧
      (calling.replay (callTicks ++ [.tick])).2.machine.sp = 0 := by
  obtain ⟨f, hf, -, -, hsp, hrest⟩ := closing_restores_opening wellNested_callTicks
    (.closes closes_callTicks rfl) closes_callTicks
  obtain ⟨rfl, -⟩ := List.cons.inj hf
  exact ⟨hrest, hsp⟩

end Nmos6502
