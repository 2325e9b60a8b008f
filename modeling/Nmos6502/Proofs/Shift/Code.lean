/-
Shifting numbers in memory.

`passes_exact` puts together what passes of shifts do to a number that lies in cells or in
the accumulator: up or down, with or without the carry that was there, it is doubled or
halved exactly, what falls out is in the carry, and rotations lose nothing.

Passes are rows of `Executions`, and `CodeAt` is where such rows come from: code that lies
in memory, one shift behind the other, none of them working on a cell of the code.  Then
stepping executes the row, `executions_of_codeAt`.  The induction goes along the code; what
carries it is that an execution changes no cell of the code that is still to come, and that
the code is all that decoding a shift looks at.
-/
import Nmos6502.Event
import Nmos6502.Proofs.Reads
import Nmos6502.Proofs.Shift.Pass

namespace Nmos6502

/-! ### Code that shifts -/

/-- The instructions that shift. -/
def Instruction.shifts : List Instruction := [.asl, .lsr, .rol, .ror]

theorem Instruction.exists_modify_of_shift {i : Instruction} (h : i ∈ shifts) :
    ∃ op, i.family = .modify op := by
  cases i with
  | asl | lsr | rol | ror => exact ⟨_, rfl⟩
  | _ => exact absurd h (by decide)

/-- No shift finds its operand through a pointer. -/
theorem Opcode.mode_of_shift {b : Byte} {entry : Opcode} (h : Opcode.lookup b = some entry)
    (hi : entry.instruction ∈ Instruction.shifts) :
    entry.mode ∉ [AddressingMode.indirect, .indirectX, .indirectY] := by
  have hall : ∀ o ∈ Opcode.table.toList,
      o.all (fun e => decide (e.instruction ∈ Instruction.shifts →
        e.mode ∉ [AddressingMode.indirect, .indirectX, .indirectY])) = true := by
    decide +kernel
  exact of_decide_eq_true (hall _ (List.mem_of_getElem? (Opcode.getElem?_table_of_lookup h))) hi

/-- The code is all that decoding a shift looks at. -/
theorem mem_cellsFrom_of_mem_decodeCells {σ : Type} [Bus σ] {bus : σ} {a : Address} {x y : Byte}
    {d : Decoded} (hd : decode bus a x y = some d) (hi : d.instruction ∈ Instruction.shifts)
    {cell : Address} (h : cell ∈ decodeCells bus a x) : cell ∈ cellsFrom a d.size := by
  have hpointer : pointerCells bus d.mode (a + 1) x = [] := by
    obtain ⟨entry, hentry, rfl⟩ := exists_entry_of_decode hd
    have hmode := Opcode.mode_of_shift hentry hi
    cases hentry : entry.mode with
    | indirect | indirectX | indirectY =>
        rw [hentry] at hmode
        exact absurd (by decide) hmode
    | _ => rfl
  rw [decodeCells_of_decode hd, hpointer, List.append_nil] at h
  rw [size_of_decode hd]
  rcases List.mem_cons.mp h with rfl | hbehind
  · exact mem_cellsFrom_self _ (by omega)
  · exact mem_cellsFrom_of_mem_succ hbehind

/--
From an address on lies code of these instructions on these operands, one behind the
other, and none of its bytes is in one of the places in `data`.
-/
def CodeAt (bus : Memory) (x y : Byte) (data : List Operand) :
    Address → List (Instruction × Operand) → Prop
  | _, [] => True
  | a, op :: ops => ∃ d, decode bus a x y = some d ∧ (d.instruction, d.operand) = op ∧
      (∀ o ∈ data, o ∉ (cellsFrom a d.size).map Operand.address) ∧
      CodeAt bus x y data (a + UInt16.ofNat d.size) ops

/-- Changing the data leaves the code. -/
theorem CodeAt.of_agree {bus bus' : Memory} {x y : Byte} {data : List Operand}
    (hagree : ∀ cell, Operand.address cell ∉ data → bus.get cell = bus'.get cell)
    {ops : List (Instruction × Operand)} (hshift : ∀ op ∈ ops, op.1 ∈ Instruction.shifts) :
    ∀ {a : Address}, CodeAt bus x y data a ops → CodeAt bus' x y data a ops := by
  induction ops with
  | nil => intro a _; trivial
  | cons op ops ih =>
      intro a h
      obtain ⟨d, hd, rfl, hcode, hrest⟩ := h
      have hi : d.instruction ∈ Instruction.shifts := hshift _ List.mem_cons_self
      have hsame : decode bus a x y = decode bus' a x y := by
        refine decode_congr_of_agree (fun cell hcell => hagree cell fun hmem => ?_) y
        have hown := mem_cellsFrom_of_mem_decodeCells hd hi hcell
        exact hcode _ hmem (List.mem_map_of_mem hown)
      exact ⟨d, hsame ▸ hd, rfl, hcode,
        ih (fun op' hop' => hshift op' (List.mem_cons_of_mem _ hop')) hrest⟩

namespace Cpu

/-- One step executes the first shift of the code and stands before the others. -/
theorem step_of_codeAt {c : Cpu Memory} (hready : c.ready = true) {data : List Operand}
    {op : Instruction × Operand} {ops : List (Instruction × Operand)}
    (hshift : ∀ op' ∈ op :: ops, op'.1 ∈ Instruction.shifts) (hdata : op.2 ∈ data)
    (hcode : CodeAt c.machine.bus c.machine.x c.machine.y data c.machine.pc (op :: ops)) :
    let next := c.stepInstruction.2
    c.ExecutesOn op.1 op.2 ∧ c.stepInstruction.1 = none ∧ next.ready = true ∧
      next.machine = c.tick.2.machine ∧
      CodeAt next.machine.bus next.machine.x next.machine.y data next.machine.pc ops := by
  intro next
  obtain ⟨d, hd, rfl, -, hrest⟩ := hcode
  have hfetch : c.Fetches d := ⟨hready, hd⟩
  have hnow : c.ExecutesOn d.instruction d.operand := ⟨d, hfetch, rfl, rfl⟩
  have hstep := stepInstruction_of_fetches hfetch
  have hdone : c.stepInstruction.1 = none := by rw [hstep]
  have hready' : c.stepInstruction.2.ready = true := by
    rw [hstep]
    rfl
  have hmachine : c.stepInstruction.2.machine = c.tick.2.machine := by
    rw [hstep, tick_of_fetches hfetch]
  obtain ⟨f, hf⟩ := Instruction.exists_modify_of_shift (hshift _ List.mem_cons_self)
  obtain ⟨hx, hy, hpc⟩ := hfetch.goesOn_of_modify hf
  obtain ⟨-, -, hkept⟩ := hnow.shifts hf
  have hagree : ∀ cell, Operand.address cell ∉ data →
      c.machine.bus.get cell = c.tick.2.machine.bus.get cell := by
    intro cell hcell
    refine (hkept (.address cell) ?_).symm
    rintro hoperand
    exact hcell (hoperand ▸ hdata)
  have hmoved :=
    hrest.of_agree hagree fun op' hop' => hshift op' (List.mem_cons_of_mem _ hop')
  rw [← hx, ← hy, ← hpc, ← hmachine] at hmoved
  exact ⟨hnow, hdone, hready', hmachine, hmoved⟩

/-- **Stepping through code that shifts executes it**, shift by shift. -/
theorem executions_of_codeAt {data : List Operand} {ops : List (Instruction × Operand)}
    (hshift : ∀ op ∈ ops, op.1 ∈ Instruction.shifts) (hdata : ∀ op ∈ ops, op.2 ∈ data) :
    ∀ {c : Cpu Memory}, c.ready = true →
      CodeAt c.machine.bus c.machine.x c.machine.y data c.machine.pc ops →
      let r := c.replay (List.replicate ops.length .step)
      r.1 = List.replicate ops.length .done ∧ Executions ops c.machine r.2.machine := by
  induction ops with
  | nil => intro c _ _; exact ⟨rfl, .done (.refl _)⟩
  | cons op ops ih =>
      intro c hready hcode
      obtain ⟨hnow, hdone, hready', hmachine, hcode'⟩ :=
        step_of_codeAt hready hshift (hdata op List.mem_cons_self) hcode
      obtain ⟨hanswers, hexecutions⟩ := ih
        (fun op' hop' => hshift op' (List.mem_cons_of_mem _ hop'))
        (fun op' hop' => hdata op' (List.mem_cons_of_mem _ hop')) hready' hcode'
      refine ⟨?_, .next (.refl _) hnow (hmachine ▸ hexecutions)⟩
      show Answer.ofError c.stepInstruction.1 :: _ = Answer.done :: _
      rw [hdone]
      exact congrArg _ hanswers

/-! ### Shifts and rotations are exact and lose nothing -/

/-- Rotations, a whole number of times over the places in either direction. -/
theorem Executions.sameData_of_rotations {places : List Operand}
    {ops : List (Instruction × Operand)}
    (hops : ∀ op ∈ ops, op ∈ pass .rol .rol places ∨ op ∈ pass .ror .ror places.reverse)
    {m n : Machine Memory} (h : Executions ops m n)
    (hback : (places.map n.operandValue, n.status.carry) =
      (places.map m.operandValue, m.status.carry)) : n.SameData m := by
  refine h.sameData_of_bytes ?_ hback
  intro op hop
  rcases hops op hop with hup | hdown
  · obtain ⟨hi | hi, hplace⟩ := mem_pass hup <;> exact ⟨⟨shiftLeft, by rw [hi]; rfl⟩, hplace⟩
  · obtain ⟨hi | hi, hplace⟩ := mem_pass hdown <;>
      exact ⟨⟨shiftRight, by rw [hi]; rfl⟩, List.mem_reverse.mp hplace⟩

/--
**Shifts and rotations of any width are exact, and rotations lose nothing.**  Let a number
lie in distinct places, cells or the accumulator, low byte first.  A pass of rotations from
the lowest place to the highest doubles it and adds the carry, and what is too much for the
places is the carry that is left; if the first instruction is `ASL`, nothing is added.  A
pass from the highest place to the lowest halves what the number and the carry above it
are, and what is odd is the carry that is left; if the first instruction is `LSR`, nothing
is above it.  So either rotation undoes the other, and as many rotations up as there are
bits in the places and the carry leave memory, accumulator and carry as they were.  Shifts
change no place but those that they work on, and code that holds none of these executes
them when it is stepped through.
-/
theorem passes_exact {places : List Operand} (hplaces : places ≠ []) (hnodup : places.Nodup) :
    let k := places.length
    let up := pass .rol .rol places
    let down := pass .ror .ror places.reverse
    (∀ {m n : Machine Memory},
      (Executions up m n →
        n.number places + 256 ^ k * n.status.carry.toNat =
          2 * m.number places + m.status.carry.toNat) ∧
      (Executions (pass .asl .rol places) m n →
        n.number places + 256 ^ k * n.status.carry.toNat = 2 * m.number places) ∧
      (Executions down m n →
        2 * n.number places + n.status.carry.toNat =
          m.number places + 256 ^ k * m.status.carry.toNat) ∧
      (Executions (pass .lsr .ror places.reverse) m n →
        2 * n.number places + n.status.carry.toNat = m.number places) ∧
      (Executions (up ++ down) m n → n.SameData m) ∧
      (Executions (down ++ up) m n → n.SameData m) ∧
      (Executions (List.replicate (8 * k + 1) up).flatten m n → n.SameData m)) ∧
    ∀ ops : List (Instruction × Operand), (∀ op ∈ ops, op.1 ∈ Instruction.shifts) →
      (∀ {m n : Machine Memory}, Executions ops m n →
        ∀ o ∉ ops.map Prod.snd, n.operandValue o = m.operandValue o) ∧
      ∀ c : Cpu Memory, c.ready = true →
        CodeAt c.machine.bus c.machine.x c.machine.y (ops.map Prod.snd) c.machine.pc ops →
        let r := c.replay (List.replicate ops.length .step)
        r.1 = List.replicate ops.length .done ∧ Executions ops c.machine r.2.machine := by
  intro k up down
  refine ⟨?_, ?_⟩
  · intro m n
    refine ⟨?_, ?_, ?_, ?_, ?_, ?_, ?_⟩
    · exact fun h => h.number_up hplaces hnodup id rfl
    · exact fun h => h.number_up hplaces hnodup (fun _ => false) rfl
    · exact fun h => h.number_down hplaces hnodup id rfl
    · intro h
      have hhalf := h.number_down hplaces hnodup (fun _ => false) rfl
      rwa [Bool.toNat_false, Nat.mul_zero, Nat.add_zero] at hhalf
    · intro h
      refine h.sameData_of_rotations ?_ (h.down_of_up hplaces hnodup)
      exact fun op hop => List.mem_append.mp hop
    · intro h
      refine h.sameData_of_rotations ?_ (h.up_of_down hplaces hnodup)
      exact fun op hop => (List.mem_append.mp hop).symm
    · intro h
      have hturned := h.turned hplaces hnodup
      have hround := iterate_turn (places.map m.operandValue) m.status.carry
      rw [List.length_map] at hround
      refine h.sameData_of_rotations ?_ (hturned.trans hround)
      intro op hop
      obtain ⟨ops, hops, hmem⟩ := List.mem_flatten.mp hop
      rw [List.eq_of_mem_replicate hops] at hmem
      exact Or.inl hmem
  · intro ops hshift
    refine ⟨?_, ?_⟩
    · intro m n h
      exact h.untouched fun op hop => Instruction.exists_modify_of_shift (hshift op hop)
    · intro c hready hcode
      exact executions_of_codeAt hshift (fun op hop => List.mem_map_of_mem hop) hready hcode

/-- A processor in front of code that rotates two cells up and down again. -/
def rotating : Cpu Memory where
  machine := { Machine.blank
      ((Memory.zero.load [0x26, 0x10, 0x26, 0x11, 0x66, 0x11, 0x66, 0x10] 0x0200).load
        [0xFF, 0x80] 0x0010) with
    pc := 0x0200, status := Status.powerOn.set .carry true }
  remaining := 0
  cycles := 0

theorem decode_of_zeroPage {bus : Memory} {a : Address} {opcode cell cycles : Byte}
    {i : Instruction} (hlookup : Opcode.lookup opcode = some ⟨i, .zeroPage, cycles⟩)
    (hcode : bus.get a = opcode ∧ bus.get (a + 1) = cell) (x y : Byte) :
    decode bus a x y = some ⟨a, opcode, i, .zeroPage, [cell], .address cell.toUInt16, cycles⟩ := by
  obtain ⟨hopcode, hcell⟩ := hcode
  simp [decode, hopcode, hlookup, resolve, fetchByte, hcell, Bus.readBytes,
    AddressingMode.operandLength]

/-- A processor in front of memory full of code that rotates the accumulator. -/
def spinning : Cpu Memory where
  machine := { Machine.blank ⟨Vector.replicate 65536 0x2A⟩ with a := 0xC5 }
  remaining := 0
  cycles := 0

theorem codeAt_spinning {data : List Operand} (hdata : ∀ o ∈ data, o = .accumulator)
    (n : Nat) : ∀ a, CodeAt spinning.machine.bus 0 0 data a
      (List.replicate n (pass .rol .rol [.accumulator])).flatten := by
  have hlookup : Opcode.lookup 0x2A = some ⟨.rol, .accumulator, 2⟩ := by decide +kernel
  have hcell : ∀ a, spinning.machine.bus.get a = 0x2A := by
    intro a
    simp [spinning, Machine.blank, Memory.get]
  induction n with
  | zero => intro a; trivial
  | succ n ih =>
      intro a
      refine ⟨⟨a, 0x2A, .rol, .accumulator, [], .accumulator, 2⟩, ?_, rfl, ?_, ih _⟩
      · simp [decode, hcell, hlookup, resolve, Bus.readBytes, AddressingMode.operandLength]
      · intro o ho
        rw [hdata o ho]
        simp

/--
A bit goes from the low cell to the high one and another into the carry, and both go back;
and an accumulator is as it was after nine rotations.
-/
theorem passes_exact_rotating :
    let places : List Operand := [.address 0x0010, .address 0x0011]
    let after n := (rotating.replay (List.replicate n .step)).2.machine
    rotating.machine.number places = 0x80FF ∧
    (after 2).number places = 0x01FF ∧ (after 2).status.carry = true ∧
    (after 4).SameData rotating.machine ∧
    (spinning.replay (List.replicate 9 .step)).2.machine.SameData spinning.machine := by
  intro places after
  have hrol : Opcode.lookup 0x26 = some ⟨.rol, .zeroPage, 5⟩ := by decide +kernel
  have hror : Opcode.lookup 0x66 = some ⟨.ror, .zeroPage, 5⟩ := by decide +kernel
  have hnumber : rotating.machine.number places = 0x80FF := by
    simp [Machine.number, places, Machine.operandValue, rotating, Machine.blank, Memory.get_set,
      littleEndian]
  have hfirst : decode rotating.machine.bus 0x0200 0 0 =
      some ⟨0x0200, 0x26, .rol, .zeroPage, [0x10], .address 0x10, 5⟩ :=
    decode_of_zeroPage hrol (by simp [rotating, Machine.blank, Memory.get_set]) 0 0
  have hsecond : decode rotating.machine.bus 0x0202 0 0 =
      some ⟨0x0202, 0x26, .rol, .zeroPage, [0x11], .address 0x11, 5⟩ :=
    decode_of_zeroPage hrol (by simp [rotating, Machine.blank, Memory.get_set]) 0 0
  have hthird : decode rotating.machine.bus 0x0204 0 0 =
      some ⟨0x0204, 0x66, .ror, .zeroPage, [0x11], .address 0x11, 5⟩ :=
    decode_of_zeroPage hror (by simp [rotating, Machine.blank, Memory.get_set]) 0 0
  have hfourth : decode rotating.machine.bus 0x0206 0 0 =
      some ⟨0x0206, 0x66, .ror, .zeroPage, [0x10], .address 0x10, 5⟩ :=
    decode_of_zeroPage hror (by simp [rotating, Machine.blank, Memory.get_set]) 0 0
  obtain ⟨hpasses, hcode⟩ := @passes_exact places (by decide) (by decide)
  obtain ⟨hup, -⟩ := @hpasses rotating.machine (after 2)
  obtain ⟨-, -, -, -, hback, -⟩ := @hpasses rotating.machine (after 4)
  obtain ⟨-, hstraight⟩ := hcode (pass .rol .rol places) (by decide)
  obtain ⟨-, hpass⟩ := hstraight rotating rfl
    ⟨_, hfirst, rfl, by decide, _, hsecond, rfl, by decide, trivial⟩
  obtain ⟨-, hstraight'⟩ :=
    hcode (pass .rol .rol places ++ pass .ror .ror places.reverse) (by decide)
  obtain ⟨-, hboth⟩ := hstraight' rotating rfl
    ⟨_, hfirst, rfl, by decide, _, hsecond, rfl, by decide, _, hthird, rfl, by decide,
      _, hfourth, rfl, by decide, trivial⟩
  have hexact : (after 2).number places + 65536 * (after 2).status.carry.toNat = 0x101FF := by
    have hsum := hup hpass
    rw [hnumber] at hsum
    exact hsum
  have hlt : (after 2).number places < 256 ^ 2 := littleEndian_lt _
  have hcarry : (after 2).status.carry = true := Bool.toNat_eq_one.mp (by omega)
  rw [hcarry, Bool.toNat_true] at hexact
  obtain ⟨hpasses', hcode'⟩ := @passes_exact [.accumulator] (by decide) (by decide)
  obtain ⟨-, -, -, -, -, -, hround⟩ := @hpasses' spinning.machine _
  obtain ⟨-, hstraight''⟩ :=
    hcode' (List.replicate 9 (pass .rol .rol [.accumulator])).flatten (by decide)
  obtain ⟨-, hspun⟩ := hstraight'' spinning rfl (codeAt_spinning (by decide) 9 _)
  exact ⟨hnumber, by omega, hcarry, hback hboth, hround hspun⟩

end Cpu

end Nmos6502
