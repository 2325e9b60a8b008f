/-
A listing is the way that execution takes through straight code.

A sweep goes from line to line by a cursor that does not wrap, and execution goes from
instruction to instruction by a program counter that does.  As long as nothing branches
and the code stays as it is, the two visit the same addresses: how far a line reaches
hangs on its first byte alone, `size_lineAt`, and a step that falls through moves by just
as much.  What the index registers have become meanwhile plays no part.

The induction goes along the sweep of the code as it was; its step is `handle_step`, the
step of a ready processor told from the line at its program counter.
-/
import Nmos6502.Proofs.Listing.Lossless
import Nmos6502.Event

namespace Nmos6502

/-! ### What a step does with a line -/

/-- The instruction leaves execution to the one behind it. -/
def Decoded.FallsThrough {σ : Type} (d : Decoded) (m : Machine σ) : Prop :=
  match d.instruction.family with
  | .jump | .call | .returnFromCall | .returnFromInterrupt | .breakProgram => False
  | .branch f on => m.status.get f ≠ on
  | _ => True

/-- What a host gets back from a step over a line. -/
def Line.answer : Line → Answer
  | code _ => .done
  | data a b => .failed ⟨b, a⟩

section

variable {σ τ : Type} [Bus σ] [Bus τ]

theorem Machine.pc_perform_of_fallsThrough {m : Machine σ} {d : Decoded}
    (hd : decode m.bus m.pc m.x m.y = some d) (h : d.FallsThrough m) :
    ((m.past d).perform d.operand d.instruction.family).pc = m.pc + UInt16.ofNat d.size := by
  have hgoes := goesOn_perform hd
  unfold Decoded.GoesOn at hgoes
  unfold Decoded.FallsThrough at h
  cases hfam : d.instruction.family with
  | branch f on =>
      rw [hfam] at h hgoes
      exact (if_neg h).mp hgoes
  | jump | call | returnFromCall | returnFromInterrupt | breakProgram =>
      rw [hfam] at h
      exact absurd h id
  | _ =>
      rw [hfam] at hgoes
      exact hgoes

/-- The answer, like the size of a line, hangs on the first byte alone. -/
theorem answer_lineAt_congr {bus : σ} {bus' : τ} {a : Address} (x y x' y' : Byte)
    (h : Bus.read bus a = Bus.read bus' a) :
    (lineAt bus a x y).answer = (lineAt bus' a x' y').answer := by
  cases hd : decode bus a x y with
  | none =>
      have he : decode bus' a x' y' = none := by
        rw [decode_eq_none_iff, ← h]
        exact decode_eq_none_iff.mp hd
      rw [lineAt_of_decode_none hd, lineAt_of_decode_none he, h]
  | some d =>
      obtain ⟨entry, hentry, -⟩ := exists_entry_of_decode hd
      obtain ⟨e, he, -, -⟩ := exists_decode_of_lookup x' y' (h ▸ hentry)
      rw [lineAt_of_decode hd, lineAt_of_decode he]
      rfl

namespace Cpu

/-- **A step that falls through takes the line at the program counter.** -/
theorem handle_step {c : Cpu σ} (hready : c.ready = true)
    (hfall : ∀ d, c.Fetches d → d.FallsThrough c.machine) :
    let line := lineAt c.machine.bus c.machine.pc c.machine.x c.machine.y
    (c.handle .step).1 = line.answer ∧
      (c.handle .step).2.ready = true ∧
      (c.handle .step).2.machine.pc = c.machine.pc + UInt16.ofNat line.size := by
  intro line
  show Answer.ofError c.stepInstruction.1 = _ ∧ c.stepInstruction.2.ready = true ∧
    c.stepInstruction.2.machine.pc = _
  cases hd : decode c.machine.bus c.machine.pc c.machine.x c.machine.y with
  | none =>
      have hline : line = .data c.machine.pc (Bus.read c.machine.bus c.machine.pc) :=
        lineAt_of_decode_none hd
      rw [stepInstruction_of_decode_none hready hd, hline]
      exact ⟨rfl, hready, rfl⟩
  | some d =>
      have hline : line = .code d := lineAt_of_decode hd
      rw [stepInstruction_of_fetches ⟨hready, hd⟩, hline]
      exact ⟨rfl, rfl, Machine.pc_perform_of_fallsThrough hd (hfall d ⟨hready, hd⟩)⟩

/-! ### Steps along a sweep -/

/--
At the start of each step, for as many steps as there are lines, the instruction that is
fetched falls through, and the bytes from `a` on that the lines cover are those of `bus`.
-/
def RunsStraight (c : Cpu σ) (lines : List Line) (bus : τ) (a : Address) : Prop :=
  ∀ i < lines.length,
    let now := (c.replay (List.replicate i .step)).2
    (∀ d, now.Fetches d → d.FallsThrough now.machine) ∧
      ∀ k < covered lines,
        Bus.read now.machine.bus (a + UInt16.ofNat k) = Bus.read bus (a + UInt16.ofNat k)

theorem RunsStraight.tail {c : Cpu σ} {line : Line} {lines : List Line} {bus : τ} {cursor : Nat}
    (h : c.RunsStraight (line :: lines) bus (UInt16.ofNat cursor)) :
    (c.handle .step).2.RunsStraight lines bus (UInt16.ofNat (cursor + line.size)) := by
  intro i hi
  obtain ⟨hfall, hkept⟩ := h (i + 1) (Nat.succ_lt_succ hi)
  refine ⟨hfall, ?_⟩
  intro k hk
  have hshift := hkept (line.size + k) (Nat.add_lt_add_left hk _)
  rwa [UInt16.ofNat_add, ← UInt16.add_assoc, ← UInt16.ofNat_add] at hshift

/-- One step for each line: each starts where the line is and answers as the line says. -/
structure Takes (c : Cpu σ) (lines : List Line) : Prop where
  addresses : ∀ i < lines.length,
    lines[i]?.map Line.address = some (c.replay (List.replicate i .step)).2.machine.pc
  answers : (c.replay (List.replicate lines.length .step)).1 = lines.map Line.answer

theorem Takes.nil (c : Cpu σ) : c.Takes [] where
  addresses i hi := absurd hi (Nat.not_lt_zero i)
  answers := rfl

theorem Takes.cons {c : Cpu σ} {line : Line} {lines : List Line}
    (haddress : line.address = c.machine.pc) (hanswer : (c.handle .step).1 = line.answer)
    (h : (c.handle .step).2.Takes lines) : c.Takes (line :: lines) where
  addresses i hi := by
    cases i with
    | zero => exact congrArg some haddress
    | succ i => exact h.addresses i (Nat.lt_of_succ_lt_succ hi)
  answers := by
    show (c.handle .step).1 :: _ = line.answer :: _
    rw [hanswer]
    exact congrArg _ h.answers

/-- **Steps through straight code take the lines of its sweep**, one after another. -/
theorem takes_sweepLines (bus : τ) (x y : Byte) (last : Nat) :
    ∀ (cursor : Nat) (c : Cpu σ), c.ready = true → c.machine.pc = UInt16.ofNat cursor →
      c.RunsStraight (sweepLines bus x y last cursor) bus (UInt16.ofNat cursor) →
      c.Takes (sweepLines bus x y last cursor) ∧
        (c.replay (List.replicate (sweepLines bus x y last cursor).length .step)).2.machine.pc =
          UInt16.ofNat (cursor + covered (sweepLines bus x y last cursor)) := by
  refine sweep_induction bus x y last ?_ ?_
  · intro cursor hlt c _ hpc _
    rw [sweepLines_of_lt hlt]
    exact ⟨Takes.nil c, hpc⟩
  · intro cursor hle ih c hready hpc hstraight
    rw [sweepLines_of_le hle] at hstraight ⊢
    set head := lineAt bus (UInt16.ofNat cursor) x y with hhead
    obtain ⟨hfall, hkept⟩ := hstraight 0 (Nat.succ_pos _)
    have hread : Bus.read bus c.machine.pc = Bus.read c.machine.bus c.machine.pc := by
      have hzero := hkept 0 (Nat.lt_of_lt_of_le head.size_pos (Nat.le_add_right _ _))
      rw [show UInt16.ofNat 0 = 0 from rfl, UInt16.add_zero, ← hpc] at hzero
      exact hzero.symm
    rw [← hpc] at hhead
    obtain ⟨hanswer, hnext, hmoved⟩ := handle_step hready hfall
    rw [← answer_lineAt_congr x y _ _ hread, ← hhead] at hanswer
    rw [size_lineAt, ← hread, ← size_lineAt bus _ x y, ← hhead, hpc, ← UInt16.ofNat_add]
      at hmoved
    obtain ⟨htakes, hend⟩ := ih _ hnext hmoved hstraight.tail
    refine ⟨Takes.cons ?_ hanswer htakes, ?_⟩
    · rw [hhead, address_lineAt]
    · rw [covered_cons, ← Nat.add_assoc]
      exact hend

/--
**A listing is the way that execution takes through straight code.**  Let a ready
processor be at the first address of a listing of its memory.  If each of as many steps
as there are lines starts with the listed bytes as they were, and fetches nothing that
jumps, calls, returns, breaks or branches, then step `i` starts at the address of line
`i` and fails exactly where that line is a byte that names no instruction, with that byte
and address.  The last step ends behind the last line, around the end of memory if need
be.
-/
theorem listing_is_path (c : Cpu σ) (hready : c.ready = true) (last : Address)
    (hle : c.machine.pc ≤ last) (x y : Byte) :
    let listing := Nmos6502.disassemble c.machine.bus c.machine.pc last x y
    (∀ i < listing.size, let now := (c.replay (List.replicate i .step)).2
      (∀ d, now.Fetches d → d.FallsThrough now.machine) ∧
        ∀ k < listing.extent c.machine.pc,
          Bus.read now.machine.bus (c.machine.pc + UInt16.ofNat k) =
            Bus.read c.machine.bus (c.machine.pc + UInt16.ofNat k)) →
    (∀ i < listing.size,
      listing.order[i]? = some (c.replay (List.replicate i .step)).2.machine.pc) ∧
    (c.replay (List.replicate listing.size .step)).1 = listing.lines.toList.map Line.answer ∧
    ∃ line, listing.lines.back? = some line ∧
      (c.replay (List.replicate listing.size .step)).2.machine.pc =
        line.address + UInt16.ofNat line.size := by
  intro listing hstraight
  set lines := sweepLines c.machine.bus x y last.toNat c.machine.pc.toNat with hsweep
  have hlines : listing.lines.toList = lines := toList_lines_disassemble ..
  have hsize : listing.size = lines.length := by
    rw [← hlines]
    exact Array.length_toList.symm
  have hruns : c.RunsStraight lines c.machine.bus c.machine.pc := by
    intro i hi
    obtain ⟨hfall, hkept⟩ := hstraight i (hsize ▸ hi)
    rw [extent_disassemble, ← hsweep] at hkept
    exact ⟨hfall, hkept⟩
  have hpc : c.machine.pc = UInt16.ofNat c.machine.pc.toNat := UInt16.ofNat_toNat.symm
  obtain ⟨htakes, hend⟩ := takes_sweepLines c.machine.bus x y last.toNat c.machine.pc.toNat c
    hready hpc (hpc ▸ hruns)
  obtain ⟨line, hline, hcovered⟩ := last_sweepLines c.machine.bus x y last.toNat_lt
    c.machine.pc.toNat (UInt16.le_iff_toNat_le.mp hle)
  rw [← hsweep] at htakes hend hline hcovered
  rw [hsize, hlines]
  refine ⟨?_, htakes.answers, line, ?_, ?_⟩
  · intro i hi
    rw [← htakes.addresses i hi, ← hlines, Listing.order, Array.getElem?_map,
      Array.getElem?_toList]
  · rw [← hline, ← hlines, Array.getLast?_toList]
  · rw [hend, ← hcovered, UInt16.ofNat_add, UInt16.ofNat_toNat]

/-- A byte that names no instruction, and a load whose operand is around the end of memory. -/
def atTheEnd : Cpu Memory where
  machine := { Machine.blank (Memory.zero.load [0x02, 0xA9, 0x05] 0xFFFE) with pc := 0xFFFE }
  remaining := 0
  cycles := 0

theorem decode_atTheEnd (x y : Byte) : decode atTheEnd.machine.bus 0xFFFE x y = none := by
  have hlookup : Opcode.lookup 0x02 = none := by decide +kernel
  simp [decode, atTheEnd, Machine.blank, Memory.get_set, hlookup]

theorem decode_atTheEnd_next (x y : Byte) :
    decode atTheEnd.machine.bus 0xFFFF x y = some
      { address := 0xFFFF, opcode := 0xA9, instruction := .lda, mode := .immediate
        operandBytes := [0x05], operand := .address 0x0000, cycles := 2 } := by
  have hlookup : Opcode.lookup 0xA9 = some ⟨.lda, .immediate, 2⟩ := by decide +kernel
  simp [decode, atTheEnd, Machine.blank, Memory.get_set, hlookup, Bus.readBytes, resolve,
    AddressingMode.operandLength, List.range_succ]

theorem lines_atTheEnd :
    (Nmos6502.disassemble atTheEnd.machine.bus 0xFFFE 0xFFFF 0 0).lines.toList =
      [.data 0xFFFE 0x02, .code
        { address := 0xFFFF, opcode := 0xA9, instruction := .lda, mode := .immediate
          operandBytes := [0x05], operand := .address 0x0000, cycles := 2 }] := by
  have hbyte : Bus.read atTheEnd.machine.bus 0xFFFE = 0x02 := by
    simp [atTheEnd, Machine.blank, Memory.get_set]
  have hfirst : lineAt atTheEnd.machine.bus (UInt16.ofNat 65534) 0 0 = .data 0xFFFE 0x02 := by
    rw [show UInt16.ofNat 65534 = 0xFFFE from rfl, lineAt_of_decode_none (decode_atTheEnd 0 0),
      hbyte]
  have hsecond := lineAt_of_decode (decode_atTheEnd_next 0 0)
  rw [show (0xFFFF : Address) = UInt16.ofNat 65535 from rfl] at hsecond
  rw [toList_lines_disassemble, show (0xFFFE : Address).toNat = 65534 from rfl,
    show (0xFFFF : Address).toNat = 65535 from rfl, sweepLines_of_le (by decide), hfirst, Line.size,
    sweepLines_of_le (by decide), hsecond, Line.size, sweepLines_of_lt (by decide)]
  rfl

theorem stepInstruction_atTheEnd :
    atTheEnd.stepInstruction.2 =
      { atTheEnd with machine := { atTheEnd.machine with pc := 0xFFFF }, cycles := 1 } := by
  have hnone := decode_atTheEnd atTheEnd.machine.x atTheEnd.machine.y
  have hready : atTheEnd.ready = true := rfl
  rw [stepInstruction_of_decode_none hready hnone]
  rfl

/-- The second line runs over the end of memory, and so does execution. -/
theorem listing_is_path_atTheEnd :
    atTheEnd.ready = true ∧ atTheEnd.machine.pc ≤ 0xFFFF ∧
    (atTheEnd.replay (List.replicate 1 .step)).2.machine.pc = 0xFFFF ∧
    (atTheEnd.replay (List.replicate 2 .step)).1 = [.failed ⟨0x02, 0xFFFE⟩, .done] ∧
    (atTheEnd.replay (List.replicate 2 .step)).2.machine.pc = 0x0001 := by
  have hlines := lines_atTheEnd
  rw [show (0xFFFE : Address) = atTheEnd.machine.pc from rfl] at hlines
  have hsize : (Nmos6502.disassemble atTheEnd.machine.bus atTheEnd.machine.pc 0xFFFF 0 0).size =
      2 := by
    rw [Listing.size, ← Array.length_toList, hlines]
    rfl
  have hone (c : Cpu Memory) : (c.replay (List.replicate 1 .step)).2 = c.stepInstruction.2 := rfl
  have hstraight : ∀ i < 2, let now := (atTheEnd.replay (List.replicate i .step)).2
      (∀ d, now.Fetches d → d.FallsThrough now.machine) ∧
        now.machine.bus = atTheEnd.machine.bus := by
    intro i hi now
    have hi' : i = 0 ∨ i = 1 := by omega
    rcases hi' with rfl | rfl
    · refine ⟨?_, rfl⟩
      intro d hd
      exact absurd (hd.found.symm.trans (decode_atTheEnd 0 0)) (by simp)
    · have hnow : now = _ := (hone atTheEnd).trans stepInstruction_atTheEnd
      rw [hnow]
      refine ⟨?_, rfl⟩
      intro d hd
      obtain rfl := Option.some.inj ((decode_atTheEnd_next 0 0).symm.trans hd.found)
      trivial
  obtain ⟨haddresses, hanswers, line, hline, hend⟩ :=
    listing_is_path atTheEnd rfl 0xFFFF (by decide) 0 0 (by
      intro i hi
      obtain ⟨hfall, hkept⟩ := hstraight i (hsize ▸ hi)
      refine ⟨hfall, ?_⟩
      intro k _
      rw [hkept])
  rw [hsize, hlines] at hanswers
  rw [← Array.getLast?_toList, hlines] at hline
  obtain rfl := Option.some.inj hline
  rw [hsize] at hend
  have hsecond := haddresses 1 (by rw [hsize]; decide)
  rw [Listing.order, Array.getElem?_map, ← Array.getElem?_toList, hlines] at hsecond
  exact ⟨rfl, by decide, (Option.some.inj hsecond).symm, hanswers, hend⟩

end Cpu

end

end Nmos6502
