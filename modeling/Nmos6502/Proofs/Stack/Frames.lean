/-
What opens and closes a frame on the stack.

A call, an interrupt and a push of a register each leave a frame on the stack, and a
return or a pull takes one off.  There are as many ways of opening a frame as of
closing it, and they do not pair up one to one: three kinds of interrupt end in the
same return, and either pull takes what either push has left.  What belongs together
is said by the `Shape` of the frame.

A frame keeps the machine as it was just before the opening, so what a closing gives
back, `Frame.Restores`, is said in terms of that machine and not of the bytes.  That the
bytes say the same is `restores_perform`, one case for each way in and out.
-/
import Nmos6502.Proofs.Fetch
import Nmos6502.Proofs.Stack.Ring

namespace Nmos6502

/-! ### Openings and closings -/

/-- What a frame is made of, by which an opening and a closing belong together. -/
inductive Shape
  /-- A return address. -/
  | address
  /-- A status and the address at which a program was left. -/
  | program
  /-- A byte. -/
  | byte
  deriving DecidableEq

/-- What leaves a frame on the stack. -/
inductive Opener
  | call
  | breakProgram
  | irq
  | nmi
  | pushAccumulator
  | pushStatus
  deriving DecidableEq

/-- What takes a frame off the stack. -/
inductive Closer
  | returnFromCall
  | returnFromInterrupt
  | pullAccumulator
  | pullStatus
  deriving DecidableEq

def Opener.shape : Opener → Shape
  | call => .address
  | breakProgram | irq | nmi => .program
  | pushAccumulator | pushStatus => .byte

def Closer.shape : Closer → Shape
  | returnFromCall => .address
  | returnFromInterrupt => .program
  | pullAccumulator | pullStatus => .byte

/-- How many bytes a frame takes. -/
def Shape.size : Shape → Nat
  | address => 2
  | program => 3
  | byte => 1

/-- The frame that instructions of the family open. -/
def Family.opener? : Family → Option Opener
  | call => some .call
  | breakProgram => some .breakProgram
  | pushAccumulator => some .pushAccumulator
  | pushStatus => some .pushStatus
  | _ => none

/-- The frame that instructions of the family close. -/
def Family.closer? : Family → Option Closer
  | returnFromCall => some .returnFromCall
  | returnFromInterrupt => some .returnFromInterrupt
  | pullAccumulator => some .pullAccumulator
  | pullStatus => some .pullStatus
  | _ => none

/-- Whether instructions of the family write the cell that their operand names. -/
def Family.writesOperand : Family → Bool
  | store _ | modify _ => true
  | _ => false

theorem Family.opener?_of_closer? {family : Family} {k : Closer} (h : family.closer? = some k) :
    family.opener? = none := by
  cases family <;> first | rfl | exact absurd h (by simp [closer?])

/-! ### Frames -/

/-- A word as it lies on the stack. -/
def wordBytes (w : Address) : List Byte := [lowByte w, highByte w]

/-- Something that was opened and has not been closed. -/
structure Frame where
  opener : Opener
  /-- The machine just before the opening. -/
  before : Machine Memory

namespace Frame

/-- The bytes that the opening pushed, the last of them first. -/
def bytes (f : Frame) : List Byte :=
  let status := f.before.status
  match f.opener with
  | .call => wordBytes (f.before.pc + 2)
  | .breakProgram =>
      { status with interruptDisable := true }.pushedByProgram :: wordBytes (f.before.pc + 2)
  | .irq => { status with interruptDisable := true }.toByte :: wordBytes f.before.pc
  | .nmi => status.toByte :: wordBytes f.before.pc
  | .pushAccumulator => [f.before.a]
  | .pushStatus => [status.pushedByProgram]

theorem length_bytes (f : Frame) : f.bytes.length = f.opener.shape.size := by
  obtain ⟨opener, before⟩ := f
  cases opener <;> rfl

/-- The cells that the opening pushed to, from the stack pointer it left to the one it found. -/
def cells (f : Frame) : List Address :=
  cellsAbove (f.before.sp - UInt8.ofNat f.opener.shape.size) f.opener.shape.size

end Frame

/-- The bytes of all frames, the last pushed first. -/
def outstanding (frames : List Frame) : List Byte := frames.flatMap Frame.bytes

/-- What a pull does with the byte that it is given. -/
def Closer.Receives (k : Closer) (v : Byte) (m' : Machine Memory) : Prop :=
  match k with
  | .pullAccumulator => m'.a = v
  | .pullStatus => m'.status.toByte = v &&& 0xEF ||| 0x20
  | _ => False

/-- The machine after a closing has what the opening found. -/
def Frame.Restores (f : Frame) (k : Closer) (m' : Machine Memory) : Prop :=
  let before := f.before
  m'.sp = before.sp ∧
  match f.opener with
  | .call => m'.pc = before.pc + 3
  | .breakProgram =>
      m'.pc = before.pc + 2 ∧
        m'.status = { before.status with brk := false, unused := true, interruptDisable := true }
  | .irq =>
      m'.pc = before.pc ∧
        m'.status = { before.status with brk := false, unused := true, interruptDisable := true }
  | .nmi => m'.pc = before.pc ∧ m'.status = { before.status with brk := false, unused := true }
  | .pushAccumulator => k.Receives before.a m'
  | .pushStatus => k.Receives (before.status.toByte ||| 0x30) m'

/-! ### Opening is pushing the bytes of the frame -/

namespace Machine

/-- The instruction that opens a frame pushes its bytes. -/
theorem perform_of_opener {m : Machine Memory} {d : Decoded} {o : Opener}
    (hd : decode m.bus m.pc m.x m.y = some d) (ho : d.instruction.family.opener? = some o) :
    ((m.past d).perform d.operand d.instruction.family).sp =
        (m.pushAll (Frame.mk o m).bytes).sp ∧
      ((m.past d).perform d.operand d.instruction.family).bus =
        (m.pushAll (Frame.mk o m).bytes).bus := by
  cases hfam : d.instruction.family with
  | call =>
      rw [hfam] at ho
      obtain rfl := Option.some.inj ho
      rw [perform, pc_past_of_call hd hfam]
      exact ⟨rfl, rfl⟩
  | breakProgram =>
      rw [hfam] at ho
      obtain rfl := Option.some.inj ho
      simp only [perform, breakProgram, pc_past_of_breakProgram hd hfam]
      exact ⟨rfl, rfl⟩
  | pushAccumulator | pushStatus =>
      rw [hfam] at ho
      obtain rfl := Option.some.inj ho
      exact ⟨rfl, rfl⟩
  | _ =>
      rw [hfam] at ho
      exact absurd ho (by simp [Family.opener?])

/-! ### Closing is pulling them -/

/-- The instruction that closes a frame moves the stack pointer over it and writes nothing. -/
theorem perform_of_closer (m : Machine Memory) (operand : Operand) {family : Family} {k : Closer}
    (hk : family.closer? = some k) :
    (m.perform operand family).sp = m.sp + UInt8.ofNat k.shape.size ∧
      (m.perform operand family).bus = m.bus := by
  cases family with
  | returnFromCall =>
      obtain rfl := Option.some.inj hk
      exact ⟨UInt8.add_assoc m.sp 1 1, rfl⟩
  | returnFromInterrupt =>
      obtain rfl := Option.some.inj hk
      refine ⟨?_, rfl⟩
      show m.sp + 1 + 1 + 1 = m.sp + 3
      rw [UInt8.add_assoc, UInt8.add_assoc]
      rfl
  | pullAccumulator | pullStatus =>
      obtain rfl := Option.some.inj hk
      exact ⟨rfl, rfl⟩
  | _ => exact absurd hk (by simp [Family.closer?])

theorem stackWord_of_above {memory : Memory} {sp : Byte} {w : Address}
    (h : memory.Above sp (wordBytes w)) : stackWord memory sp = w := by
  obtain ⟨hlow, hhigh, -⟩ := h
  have hsp : sp + 2 = sp + 1 + 1 := by
    rw [UInt8.add_assoc]
    rfl
  rw [stackWord, hsp]
  show wordOf (memory.get _) (memory.get _) = w
  rw [hlow, hhigh, wordOf_halves]

theorem pc_returnFromCall_of_above {m : Machine Memory} {w : Address}
    (h : m.bus.Above m.sp (wordBytes w)) : m.returnFromCall.pc = w + 1 := by
  rw [returnFromCall, pullWord_eq, stackWord_of_above h]

/-- The status is pulled first, and the address lies behind it. -/
theorem returnFromInterrupt_of_above {m : Machine Memory} {s : Status} {w : Address}
    (h : m.bus.Above m.sp (s.toByte :: wordBytes w)) :
    m.returnFromInterrupt.pc = w ∧
      m.returnFromInterrupt.status = { s with brk := false, unused := true } := by
  obtain ⟨hstatus, hword⟩ := h
  rw [returnFromInterrupt, pullWord_eq]
  refine ⟨stackWord_of_above hword, ?_⟩
  show Status.ofPulled (m.bus.get _) = _
  rw [hstatus, Status.ofPulled_toByte]

theorem toByte_status_pullStatus_of_above {m : Machine Memory} {v : Byte}
    (h : m.bus.Above m.sp [v]) : m.pullStatus.status.toByte = v &&& 0xEF ||| 0x20 := by
  show (Status.ofPulled (m.bus.get _)).toByte = _
  rw [h.1, Status.toByte_ofPulled]

/-- **A closing gives back what the frame was opened with**, if its bytes are still there. -/
theorem restores_perform {f : Frame} {m : Machine Memory} (operand : Operand) {family : Family}
    {k : Closer} (hk : family.closer? = some k) (hshape : k.shape = f.opener.shape)
    (hsp : f.before.sp = m.sp + UInt8.ofNat f.opener.shape.size)
    (habove : m.bus.Above m.sp f.bytes) : f.Restores k (m.perform operand family) := by
  refine ⟨?_, ?_⟩
  · rw [(perform_of_closer m operand hk).1, hshape, hsp]
  obtain ⟨opener, before⟩ := f
  replace hshape : k.shape = opener.shape := hshape
  cases family with
  | returnFromCall =>
      obtain rfl := Option.some.inj hk
      cases opener with
      | call => exact (pc_returnFromCall_of_above habove).trans (UInt16.add_assoc _ _ _)
      | _ => exact absurd hshape (by decide)
  | returnFromInterrupt =>
      obtain rfl := Option.some.inj hk
      cases opener with
      | breakProgram | irq | nmi => exact returnFromInterrupt_of_above habove
      | _ => exact absurd hshape (by decide)
  | pullAccumulator =>
      obtain rfl := Option.some.inj hk
      cases opener with
      | pushAccumulator => exact habove.1
      | pushStatus => exact habove.1.trans (Status.pushedByProgram_eq _)
      | _ => exact absurd hshape (by decide)
  | pullStatus =>
      obtain rfl := Option.some.inj hk
      cases opener with
      | pushAccumulator => exact toByte_status_pullStatus_of_above habove
      | pushStatus =>
          show Closer.pullStatus.Receives (before.status.toByte ||| 0x30) m.pullStatus
          rw [← Status.pushedByProgram_eq]
          exact toByte_status_pullStatus_of_above habove
      | _ => exact absurd hshape (by decide)
  | _ => exact absurd hk (by simp [Family.closer?])

/-! ### Everything else leaves the stack alone -/

/-- An instruction that opens nothing writes at most the cell that its operand names. -/
theorem bus_perform {m : Machine Memory} {d : Decoded}
    (hd : decode m.bus m.pc m.x m.y = some d) (hopener : d.instruction.family.opener? = none) :
    ((m.past d).perform d.operand d.instruction.family).bus = m.bus ∨
      d.instruction.family.writesOperand = true ∧ ∃ cell v, d.operand = .address cell ∧
        ((m.past d).perform d.operand d.instruction.family).bus = m.bus.set cell v := by
  have huse := usesOperand_perform hd
  unfold Decoded.UsesOperand at huse
  cases hfam : d.instruction.family with
  | store r =>
      rw [hfam] at huse
      obtain ⟨cell, hcell, hafter⟩ := huse
      refine Or.inr ⟨rfl, cell, m.get r, hcell, ?_⟩
      rw [hafter]
      rfl
  | modify op =>
      rw [hfam] at huse
      rcases huse with ⟨cell, hcell, hafter⟩ | ⟨-, hafter⟩
      · refine Or.inr ⟨rfl, cell, (op (m.bus.get cell) m.status.carry).value, hcell, ?_⟩
        rw [hafter]
        rfl
      · refine Or.inl ?_
        rw [hafter]
        rfl
  | call | breakProgram | pushAccumulator | pushStatus =>
      rw [hfam] at hopener
      exact absurd hopener (by simp [Family.opener?])
  | load r | accumulate sum | combine op | compare r | bitTest =>
      exact Or.inl (bus_consume _ _ _)
  | transfer source target => exact Or.inl (bus_setResult _ _ _)
  | moveToStack => exact Or.inl (bus_set _ _ _)
  | adjustRegister r delta => exact Or.inl (bus_setResult _ _ _)
  | branch f on =>
      obtain ⟨a, ha⟩ := exists_perform_branch (m.past d) d.operand f on
      exact Or.inl (congrArg (·.bus) ha)
  | _ => exact Or.inl rfl

end Machine

end Nmos6502
