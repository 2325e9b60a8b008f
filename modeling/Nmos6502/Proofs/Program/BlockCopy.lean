/-
The block copy: `LDY #0`, and then `LDA ($20),Y`, `STA ($22),Y`, `INY`, `CPY #n` and `BNE`
back to the load.

What the program is for is `Memory.copied`, which copies byte after byte and reads each
byte from the memory that the bytes before it have left.  After `i` rounds the memory is
that after `i` bytes, whatever the two blocks are and wherever they wrap, as long as no
byte lands in the program or its pointers; that is the invariant, `Copying`.

Whether the block that arrives is the block that was there is then a question about
memory alone.  It is, unless a byte lands in a cell whose own turn is still to come,
`Memory.get_copied`; where the blocks overlap, a copy downwards is sound.

The count is compared after `Y` has been stepped, so a count of zero is met when `Y` has
come round: 256 bytes.
-/
import Nmos6502.Proofs.Footprint
import Nmos6502.Proofs.Program.Course
import Nmos6502.Proofs.Reads

namespace Nmos6502

/-! ### Copying byte after byte -/

namespace Memory

/-- The memory after `n` bytes from `src` on have gone to `dst` on, one by one. -/
def copied (m : Memory) (src dst : Address) : Nat → Memory
  | 0 => m
  | n + 1 =>
    let m := m.copied src dst n
    m.set (dst + UInt16.ofNat n) (m.get (src + UInt16.ofNat n))

variable {m : Memory} {src dst : Address} {n : Nat}

/-- What no byte lands in is as it was. -/
theorem get_copied_of_ne {a : Address} (h : ∀ i < n, dst + UInt16.ofNat i ≠ a) :
    (m.copied src dst n).get a = m.get a := by
  induction n with
  | zero => rfl
  | succ n ih =>
      rw [copied, get_set_ne _ (h n n.lt_succ_self), ih fun i hi => h i (Nat.lt_succ_of_lt hi)]

/-- Rows of no more bytes than there are cells do not come round to where they were. -/
theorem add_ofNat_ne (a : Address) {i j : Nat} (hij : i < j) (hj : j < 65536) :
    a + UInt16.ofNat i ≠ a + UInt16.ofNat j := by
  intro h
  have hnat := congrArg UInt16.toNat h
  simp only [UInt16.toNat_add, UInt16.toNat_ofNat'] at hnat
  omega

/-- **Each byte arrives as it was**, if none lands in a cell whose own turn is still to come. -/
theorem get_copied (hn : n ≤ 65536)
    (hahead : ∀ j < n, ∀ i < j, dst + UInt16.ofNat i ≠ src + UInt16.ofNat j) :
    ∀ i < n, (m.copied src dst n).get (dst + UInt16.ofNat i) = m.get (src + UInt16.ofNat i) := by
  induction n with
  | zero => exact fun i hi => absurd hi i.not_lt_zero
  | succ n ih =>
      intro i hi
      rcases Nat.lt_succ_iff_lt_or_eq.mp hi with hlt | rfl
      · rw [copied, get_set_ne _ (add_ofNat_ne dst hlt hn).symm]
        exact ih (Nat.le_of_succ_le hn) (fun j hj => hahead j (Nat.lt_succ_of_lt hj)) i hlt
      · rw [copied, get_set_self]
        exact get_copied_of_ne (hahead i i.lt_succ_self)

end Memory

/-! ### The program -/

/-- The program that copies `n` bytes, or 256 if `n` is zero. -/
def blockCopy (n : Byte) : List Byte :=
  [0xA0, 0x00, 0xB1, 0x20, 0x91, 0x22, 0xC8, 0xC0, n, 0xD0, 0xF7]

/-- How many bytes a count stands for. -/
def blockLength (n : Byte) : Nat := if n = 0 then 256 else n.toNat

theorem blockLength_le (n : Byte) : blockLength n ≤ 256 := by
  have hn := n.toNat_lt
  unfold blockLength
  split <;> omega

theorem blockLength_pos (n : Byte) : 0 < blockLength n := by
  unfold blockLength
  by_cases hzero : n = 0
  · rw [if_pos hzero]
    decide
  · rw [if_neg hzero]
    exact Nat.pos_of_ne_zero fun h => hzero (UInt8.toNat_inj.mp h)

/-- A counter that is stepped meets the count after as many steps as it stands for. -/
theorem ofNat_eq_iff_blockLength {n : Byte} {i : Nat} (hpos : 0 < i) (hi : i ≤ blockLength n) :
    UInt8.ofNat i = n ↔ i = blockLength n := by
  have hn := n.toNat_lt
  rw [← UInt8.toNat_inj, UInt8.toNat_ofNat']
  unfold blockLength at hi ⊢
  by_cases hzero : n = 0
  · rw [if_pos hzero] at hi ⊢
    rw [hzero]
    show i % 256 = 0 ↔ _
    omega
  · rw [if_neg hzero] at hi ⊢
    omega

/-- The cells of the pointers and of the program. -/
def blockCopyCells : List Address := cellsFrom 0x0020 4 ++ cellsFrom 0x0600 11

/-- The program is in its place, and its pointers are those of the two blocks. -/
structure HoldsBlockCopy (bus : Memory) (n : Byte) (src dst : Address) : Prop where
  code : Bus.readBytes bus 0x0600 11 = blockCopy n
  source : Bus.readZeroPageWord bus 0x20 = src
  target : Bus.readZeroPageWord bus 0x22 = dst

/-- A byte of the program, where it lies. -/
theorem HoldsBlockCopy.get {bus : Memory} {n : Byte} {src dst : Address}
    (h : HoldsBlockCopy bus n src dst) (i : Nat) {b : Byte} (hi : (blockCopy n)[i]? = some b) :
    bus.get (0x0600 + UInt16.ofNat i) = b :=
  Bus.read_of_readBytes h.code i hi

/-- Bytes that land elsewhere leave the program and its pointers. -/
theorem HoldsBlockCopy.of_agree {bus bus' : Memory} {n : Byte} {src dst : Address}
    (h : HoldsBlockCopy bus n src dst)
    (hagree : ∀ cell ∈ blockCopyCells, Bus.read bus' cell = Bus.read bus cell) :
    HoldsBlockCopy bus' n src dst := by
  have hpointers : cellsFrom 0x0020 4 = pointerInZeroPage 0x20 ++ pointerInZeroPage 0x22 := by
    decide
  rw [blockCopyCells, hpointers] at hagree
  have hcode := Bus.readBytes_congr_of_agree fun cell hcell =>
    hagree cell (List.mem_append_right _ hcell)
  have hsource := Bus.readZeroPageWord_congr_of_agree fun cell hcell =>
    hagree cell (List.mem_append_left _ (List.mem_append_left _ hcell))
  have htarget := Bus.readZeroPageWord_congr_of_agree fun cell hcell =>
    hagree cell (List.mem_append_left _ (List.mem_append_right _ hcell))
  exact ⟨hcode.trans h.code, hsource.trans h.source, htarget.trans h.target⟩

/-! ### The pieces of the program -/

/-- The cell `Y` behind the one that a pointer in page zero names. -/
theorem resolve_indirectY {σ : Type} [Bus σ] {bus : σ} {cursor base : Address} {p : Byte}
    (hp : Bus.read bus cursor = p) (hbase : Bus.readZeroPageWord bus p = base) (x y : Byte) :
    resolve bus .indirectY cursor x y = (.address (base + y.toUInt16), cursor + 1) := by
  rw [← hbase, ← hp]
  rfl

theorem Flag.notMem_zero_negative {f : Flag} (hf : f ∉ [carry, zero, negative]) :
    f ∉ [zero, negative] :=
  fun hmem => hf (List.mem_cons_of_mem _ hmem)

namespace Machine

/-- The registers and flags that copying leaves alone. -/
structure KeepsOthers (m m' : Machine Memory) : Prop where
  x : m'.x = m.x
  sp : m'.sp = m.sp
  flags : ∀ f ∉ [Flag.carry, .zero, .negative], m'.status.get f = m.status.get f

theorem KeepsOthers.trans {m m' m'' : Machine Memory} (h : m.KeepsOthers m')
    (h' : m'.KeepsOthers m'') : m.KeepsOthers m'' where
  x := h'.x.trans h.x
  sp := h'.sp.trans h.sp
  flags f hf := (h'.flags f hf).trans (h.flags f hf)

section

variable {m : Machine Memory} {n : Byte} {src dst : Address}

/-- `LDY #0`. -/
theorem course_clear (h : HoldsBlockCopy m.bus n src dst) (hpc : m.pc = 0x0600) :
    ∃ m', Course 0x060B 1 m m' ∧ m'.pc = 0x0602 ∧ m'.y = 0 ∧ m'.bus = m.bus ∧
      m.KeepsOthers m' := by
  have hldy : Opcode.lookup 0xA0 = some ⟨.ldy, .immediate, 2⟩ := by decide +kernel
  let last : Machine Memory := { m with y := 0, status := m.status.setZN 0, pc := 0x0602 }
  have hstep : m.step = (.ok 2, last) :=
    step_of_consume hldy hpc (h.get 0 rfl) rfl (h.get 1 rfl) fun _ _ => rfl
  refine ⟨last, .head (by rw [hpc]; decide) hstep (.refl last), rfl, rfl, rfl, rfl, rfl, ?_⟩
  exact fun f hf => Status.get_setZN_of_notMem _ (Flag.notMem_zero_negative hf) _

/-- `LDA ($20),Y` and `STA ($22),Y`. -/
theorem course_move (h : HoldsBlockCopy m.bus n src dst) (hpc : m.pc = 0x0602) :
    ∃ m', Course 0x060B 2 m m' ∧ m'.pc = 0x0606 ∧ m'.y = m.y ∧
      m'.bus = m.bus.set (dst + m.y.toUInt16) (m.bus.get (src + m.y.toUInt16)) ∧
      m.KeepsOthers m' := by
  have hlda : Opcode.lookup 0xB1 = some ⟨.lda, .indirectY, 5⟩ := by decide +kernel
  have hsta : Opcode.lookup 0x91 = some ⟨.sta, .indirectY, 6⟩ := by decide +kernel
  let v := m.bus.get (src + m.y.toUInt16)
  let loaded : Machine Memory := { m with a := v, status := m.status.setZN v, pc := 0x0604 }
  let last : Machine Memory :=
    { loaded with bus := m.bus.set (dst + m.y.toUInt16) v, pc := 0x0606 }
  have hload : m.step = (.ok 5, loaded) :=
    step_of_consume hlda hpc (h.get 2 rfl)
      (resolve_indirectY (h.get 3 rfl) h.source m.x m.y) rfl fun _ _ => rfl
  have hstore : loaded.step = (.ok 6, last) :=
    step_of_resolve (m := loaded) hsta rfl (h.get 4 rfl)
      (resolve_indirectY (h.get 5 rfl) h.target m.x m.y)
  have hcourse : Course 0x060B 2 m last :=
    .head (by rw [hpc]; decide) hload <|
      .head (show (0x0604 : Address) ≠ 0x060B by decide) hstore <| .refl last
  refine ⟨last, hcourse, rfl, rfl, rfl, rfl, rfl, ?_⟩
  exact fun f hf => Status.get_setZN_of_notMem _ (Flag.notMem_zero_negative hf) _

/-- `INY`, `CPY #n` and `BNE`, which goes back unless `Y` has met the count. -/
theorem course_count (h : HoldsBlockCopy m.bus n src dst) (hpc : m.pc = 0x0606) :
    ∃ m', Course 0x060B 3 m m' ∧ m'.pc = (if m.y + 1 = n then 0x060B else 0x0602) ∧
      m'.y = m.y + 1 ∧ m'.bus = m.bus ∧ m.KeepsOthers m' := by
  have hiny : Opcode.lookup 0xC8 = some ⟨.iny, .implied, 2⟩ := by decide +kernel
  have hcpy : Opcode.lookup 0xC0 = some ⟨.cpy, .immediate, 2⟩ := by decide +kernel
  have hbne : Opcode.lookup 0xD0 = some ⟨.bne, .relative, 2⟩ := by decide +kernel
  let stepped : Machine Memory :=
    { m with y := m.y + 1, status := m.status.setZN (m.y + 1), pc := 0x0607 }
  let compared : Machine Memory :=
    { stepped with
      status := { stepped.status.setZN (m.y + 1 - n) with carry := n ≤ m.y + 1 }, pc := 0x0609 }
  let last : Machine Memory := { compared with pc := if m.y + 1 = n then 0x060B else 0x0602 }
  have hstep : m.step = (.ok 2, stepped) := step_of_resolve hiny hpc (h.get 6 rfl) rfl
  have hcompare : stepped.step = (.ok 2, compared) :=
    step_of_consume (m := stepped) hcpy rfl (h.get 7 rfl) rfl (h.get 8 rfl) fun _ _ => rfl
  have hzero : compared.status.get .zero = decide (m.y + 1 = n) := by
    show (m.y + 1 - n == 0) = _
    rw [Bool.eq_iff_iff, beq_iff_eq, decide_eq_true_eq, UInt8.sub_eq_iff_eq_add, UInt8.zero_add]
  -- The branch goes nine bytes back from behind itself.
  have htarget : (0x0609 : Address) + 1 + 1 +
      (if compared.status.get .zero = false then signExtend 0xF7 else 0) = last.pc := by
    rw [hzero]
    by_cases hmet : m.y + 1 = n
    · simp only [last, hmet, decide_true, if_true]
      decide
    · simp only [last, hmet, decide_false, if_false, if_true]
      decide
  have hbranch : compared.step = (.ok 2, last) := by
    rw [step_of_branch (m := compared) hbne rfl rfl (h.get 9 rfl) (h.get 10 rfl)]
    exact congrArg (fun a => (Except.ok (2 : Byte), { compared with pc := a })) htarget
  have hcourse : Course 0x060B 3 m last :=
    .head (by rw [hpc]; decide) hstep <|
      .head (show (0x0607 : Address) ≠ 0x060B by decide) hcompare <|
      .head (show (0x0609 : Address) ≠ 0x060B by decide) hbranch <| .refl last
  refine ⟨last, hcourse, rfl, rfl, rfl, rfl, rfl, ?_⟩
  intro f hf
  show Status.get { stepped.status.setZN (m.y + 1 - n) with carry := n ≤ m.y + 1 } f = _
  rw [Status.get_setZN_carry_of_notMem _ hf]
  exact Status.get_setZN_of_notMem _ (Flag.notMem_zero_negative hf) _

/-! ### The loop -/

/--
The machine before round `i`, or behind the program if there is none: so many bytes have
been copied, and the program and its pointers are in their places.
-/
structure Copying (start : Machine Memory) (n : Byte) (src dst : Address) (i : Nat)
    (m : Machine Memory) : Prop where
  holds : HoldsBlockCopy m.bus n src dst
  pc : m.pc = if i = blockLength n then 0x060B else 0x0602
  y : m.y = UInt8.ofNat i
  bus : m.bus = start.bus.copied src dst i
  others : start.KeepsOthers m

/-- **A round carries the invariant on**, if its byte lands outside the program. -/
theorem Copying.round {start : Machine Memory} {i : Nat} (h : Copying start n src dst i m)
    (hi : i < blockLength n) (hclear : dst + UInt16.ofNat i ∉ blockCopyCells) :
    ∃ m', Course 0x060B 5 m m' ∧ Copying start n src dst (i + 1) m' := by
  have hle := blockLength_le n
  have hindex : (UInt8.ofNat i).toUInt16 = UInt16.ofNat i := by
    apply UInt16.toNat_inj.mp
    rw [UInt8.toNat_toUInt16, UInt8.toNat_ofNat', UInt16.toNat_ofNat']
    omega
  have hpc := h.pc
  rw [if_neg (Nat.ne_of_lt hi)] at hpc
  obtain ⟨moved, hmove, hpc', hy', hbus', hothers'⟩ := course_move h.holds hpc
  rw [h.y, hindex, h.bus] at hbus'
  -- What comes after the store is fetched from the memory that it has written.
  have hholds : HoldsBlockCopy moved.bus n src dst := by
    refine h.holds.of_agree fun cell hcell => ?_
    rw [hbus', h.bus]
    refine Memory.get_set_ne _ ?_ _
    rintro rfl
    exact hclear hcell
  obtain ⟨m', hcount, hpc'', hy'', hbus'', hothers''⟩ := course_count hholds hpc'
  have hcounter : m'.y = UInt8.ofNat (i + 1) := by
    rw [hy'', hy', h.y, UInt8.ofNat_add]
    rfl
  refine ⟨m', hmove.trans hcount, ?_, ?_, hcounter, ?_, h.others.trans (hothers'.trans hothers'')⟩
  · rw [hbus'']
    exact hholds
  · rw [hpc'', ← hy'', hcounter]
    simp only [ofNat_eq_iff_blockLength i.succ_pos hi]
  · rw [hbus'', hbus']
    rfl

/-- **The program copies the block**, in one step and five for each byte. -/
theorem course_blockCopy (h : HoldsBlockCopy m.bus n src dst) (hpc : m.pc = 0x0600)
    (hclear : ∀ i < blockLength n, dst + UInt16.ofNat i ∉ blockCopyCells) :
    ∃ m', Course 0x060B (1 + 5 * blockLength n) m m' ∧
      Copying m n src dst (blockLength n) m' := by
  have hstart : ∃ m', Course 0x060B 1 m m' ∧ Copying m n src dst 0 m' := by
    obtain ⟨cleared, hcourse, hpc', hy', hbus', hothers'⟩ := course_clear h hpc
    refine ⟨cleared, hcourse, hbus' ▸ h, ?_, hy', hbus', hothers'⟩
    rw [if_neg (Nat.ne_of_lt (blockLength_pos n))]
    exact hpc'
  refine Course.rounds (fun i => 1 + 5 * i) hstart ?_
  intro i hi m' hinv
  obtain ⟨m'', hcourse, hinv'⟩ := hinv.round hi (hclear i hi)
  exact ⟨5, m'', rfl, hcourse, hinv'⟩

end

end Machine

namespace Cpu

/--
**The block copy copies its block.**  Let a ready processor be at `$0600`, where the
program for a count lies, with the addresses of two blocks in `$20` to `$23`; the count is
the length of the blocks, and a count of zero stands for 256.  If no byte lands in the
program or the pointers, the processor is behind the program after one step and five for
each byte, none of which fails, and not before.  Then memory outside the second block is as
it was, and so are `X`, the stack pointer and all flags but carry, zero and negative, and
`Y` is the count.  The second block holds what the first one held, provided that no byte
lands in a cell of the first block whose own turn is still to come.  Either block may run
around the end of memory.
-/
theorem copies_block {c : Cpu Memory} {n : Byte} {length : Nat} {src dst : Address}
    (hready : c.ready = true) (hpc : c.machine.pc = 0x0600)
    (hlength : (if n = 0 then 256 else n.toNat) = length)
    (hcode : Bus.readBytes c.machine.bus 0x0600 11 =
      [0xA0, 0x00, 0xB1, 0x20, 0x91, 0x22, 0xC8, 0xC0, n, 0xD0, 0xF7])
    (hsource : Bus.readWord c.machine.bus 0x0020 = src)
    (htarget : Bus.readWord c.machine.bus 0x0022 = dst)
    (hclear : ∀ i < length, dst + UInt16.ofNat i ∉ cellsFrom 0x0020 4 ++ cellsFrom 0x0600 11) :
    let steps := 1 + 5 * length
    let last := (c.stepped steps).machine
    (c.replay (List.replicate steps .step)).1 = List.replicate steps .done ∧
    last.pc = 0x060B ∧ (∀ k < steps, (c.stepped k).machine.pc ≠ 0x060B) ∧
    ((∀ j < length, ∀ i < j, dst + UInt16.ofNat i ≠ src + UInt16.ofNat j) →
      ∀ i < length,
        last.bus.get (dst + UInt16.ofNat i) = c.machine.bus.get (src + UInt16.ofNat i)) ∧
    (∀ a, (∀ i < length, dst + UInt16.ofNat i ≠ a) → last.bus.get a = c.machine.bus.get a) ∧
    last.x = c.machine.x ∧ last.sp = c.machine.sp ∧ last.y = n ∧
    ∀ f ∉ [Flag.carry, .zero, .negative], last.status.get f = c.machine.status.get f := by
  intro steps last
  subst hlength
  have hholds : HoldsBlockCopy c.machine.bus n src dst := ⟨hcode, hsource, htarget⟩
  obtain ⟨m, hcourse, hend⟩ := Machine.course_blockCopy hholds hpc hclear
  obtain ⟨hanswers, hmachine, -, hbefore⟩ := hcourse.arrives hready rfl
  have hlast : last = m := hmachine
  rw [hlast]
  refine ⟨hanswers, ?_, hbefore, ?_, ?_, hend.others.x, hend.others.sp, ?_, hend.others.flags⟩
  · rw [hend.pc, if_pos rfl]
  · intro hahead i hi
    rw [hend.bus]
    have hle := blockLength_le n
    exact Memory.get_copied (Nat.le_trans hle (by decide)) hahead i hi
  · intro a ha
    rw [hend.bus]
    exact Memory.get_copied_of_ne ha
  · rw [hend.y]
    exact (ofNat_eq_iff_blockLength (blockLength_pos n) (Nat.le_refl _)).mpr rfl

/-- A processor about to copy 256 bytes one cell down, around the end of memory. -/
def copyingDown : Cpu Memory where
  machine := { Machine.blank (((Memory.zero.load (blockCopy 0) 0x0600).load
      [0x10, 0xFF, 0x0F, 0xFF] 0x0020).load [0xA5, 0x5A] 0xFFFF) with pc := 0x0600 }
  remaining := 0
  cycles := 0

/-- The blocks share 255 cells; the last one of memory is read and then written. -/
theorem copies_block_overlapping :
    let last := (copyingDown.stepped (1 + 5 * 256)).machine
    copyingDown.ready = true ∧ copyingDown.machine.pc = 0x0600 ∧
    Bus.readBytes copyingDown.machine.bus 0x0600 11 =
      [0xA0, 0x00, 0xB1, 0x20, 0x91, 0x22, 0xC8, 0xC0, 0x00, 0xD0, 0xF7] ∧
    Bus.readWord copyingDown.machine.bus 0x0020 = 0xFF10 ∧
    Bus.readWord copyingDown.machine.bus 0x0022 = 0xFF0F ∧
    (∀ i < 256, (0xFF0F : Address) + UInt16.ofNat i ∉ cellsFrom 0x0020 4 ++ cellsFrom 0x0600 11) ∧
    (∀ j < 256, ∀ i < j, (0xFF0F : Address) + UInt16.ofNat i ≠ 0xFF10 + UInt16.ofNat j) ∧
    last.pc = 0x060B ∧ last.bus.get 0xFFFE = 0xA5 ∧ last.bus.get 0xFFFF = 0x5A ∧
    last.bus.get 0x000F = 0x00 ∧ last.y = 0 := by
  have hcode : Bus.readBytes copyingDown.machine.bus 0x0600 11 =
      [0xA0, 0x00, 0xB1, 0x20, 0x91, 0x22, 0xC8, 0xC0, 0x00, 0xD0, 0xF7] := by
    simp [Bus.readBytes, List.range_succ, copyingDown, Machine.blank, blockCopy, Memory.get_set]
  have hsource : Bus.readWord copyingDown.machine.bus 0x0020 = 0xFF10 := by
    simp [Bus.readWord, wordOf, copyingDown, Machine.blank, blockCopy, Memory.get_set]
  have htarget : Bus.readWord copyingDown.machine.bus 0x0022 = 0xFF0F := by
    simp [Bus.readWord, wordOf, copyingDown, Machine.blank, blockCopy, Memory.get_set]
  have hclear : ∀ i < 256,
      (0xFF0F : Address) + UInt16.ofNat i ∉ cellsFrom 0x0020 4 ++ cellsFrom 0x0600 11 := by
    decide +kernel
  have hahead : ∀ j < 256, ∀ i < j,
      (0xFF0F : Address) + UInt16.ofNat i ≠ 0xFF10 + UInt16.ofNat j := by
    intro j hj i hi heq
    have hnat := congrArg UInt16.toNat heq
    simp only [UInt16.toNat_add, UInt16.toNat_ofNat', UInt16.reduceToNat] at hnat
    omega
  have hlength : (if (0 : Byte) = 0 then 256 else (0 : Byte).toNat) = 256 := rfl
  obtain ⟨-, hpc, -, hcopied, hkept, -, -, hy, -⟩ :=
    copies_block (c := copyingDown) rfl rfl hlength hcode hsource htarget hclear
  have hcells : copyingDown.machine.bus.get 0xFFFF = 0xA5 ∧
      copyingDown.machine.bus.get 0x0000 = 0x5A ∧ copyingDown.machine.bus.get 0x000F = 0x00 := by
    simp [copyingDown, Machine.blank, blockCopy, Memory.get_set]
  obtain ⟨hfirst, hsecond, houtside⟩ := hcells
  have hlast := hcopied hahead 0xEF (by decide)
  have hwrapped := hcopied hahead 0xF0 (by decide)
  have hbehind := hkept 0x000F (by decide +kernel)
  rw [show (0xFF10 : Address) + UInt16.ofNat 0xEF = 0xFFFF by decide, hfirst,
    show (0xFF0F : Address) + UInt16.ofNat 0xEF = 0xFFFE by decide] at hlast
  rw [show (0xFF10 : Address) + UInt16.ofNat 0xF0 = 0x0000 by decide, hsecond,
    show (0xFF0F : Address) + UInt16.ofNat 0xF0 = 0xFFFF by decide] at hwrapped
  rw [houtside] at hbehind
  exact ⟨rfl, rfl, hcode, hsource, htarget, hclear, hahead, hpc, hlast, hwrapped, hbehind, hy⟩

end Cpu

end Nmos6502
