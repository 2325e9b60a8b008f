/-
What comes in over the bus.

`Cpu.reads` lists the cells that the next tick looks at.  They are of three kinds:
`decodeCells`, from which the instruction and its operand are found, the pointer cells of
the indirect modes among them; the cell of an operand whose old byte plays a part; and the
cells above the stack pointer, or those of a vector, for the instructions that go there.
Each list is a reading of one definition, and beside it stands what makes it the right one:
a bus that answers alike in these cells is as good as the bus itself, `resolve_congr_of_agree`
and `decode_congr_of_agree`.

The list is drawn up before the tick.  `BRK` reads its vector after three pushes, and if the
pushes run into the vector it reads what they left there.
-/
import Nmos6502.Proofs.Fetch
import Nmos6502.Proofs.Stack.Ring

namespace Nmos6502

/-! ### Rows of cells, and what is read from them -/

/-- The `n` cells from an address on, around the end of memory. -/
def cellsFrom (a : Address) (n : Nat) : List Address :=
  (List.range n).map fun i => a + UInt16.ofNat i

theorem add_mem_cellsFrom (a : Address) {i n : Nat} (h : i < n) :
    a + UInt16.ofNat i ∈ cellsFrom a n :=
  List.mem_map_of_mem (List.mem_range.mpr h)

theorem mem_cellsFrom_self (a : Address) {n : Nat} (h : 0 < n) : a ∈ cellsFrom a n := by
  have hmem := add_mem_cellsFrom a h
  rwa [show UInt16.ofNat 0 = 0 from rfl, UInt16.add_zero] at hmem

theorem succ_mem_cellsFrom (a : Address) {n : Nat} (h : 1 < n) : a + 1 ∈ cellsFrom a n :=
  add_mem_cellsFrom a h

theorem mem_cellsFrom_of_mem_succ {a cell : Address} {n : Nat} (h : cell ∈ cellsFrom (a + 1) n) :
    cell ∈ cellsFrom a (1 + n) := by
  obtain ⟨i, hi, rfl⟩ := List.mem_map.mp h
  have hcell : a + 1 + UInt16.ofNat i = a + UInt16.ofNat (1 + i) := by
    rw [UInt16.ofNat_add, ← UInt16.add_assoc]
    rfl
  rw [hcell]
  exact add_mem_cellsFrom a (Nat.add_lt_add_left (List.mem_range.mp hi) 1)

section

variable {σ τ : Type} [Bus σ] [Bus τ] {bus : σ} {bus' : τ}

theorem Bus.readBytes_congr_of_agree {a : Address} {n : Nat}
    (h : ∀ cell ∈ cellsFrom a n, Bus.read bus cell = Bus.read bus' cell) :
    Bus.readBytes bus a n = Bus.readBytes bus' a n :=
  List.map_congr_left fun _ hi => h _ (add_mem_cellsFrom a (List.mem_range.mp hi))

theorem Bus.readWord_congr_of_agree {a : Address}
    (h : ∀ cell ∈ cellsFrom a 2, Bus.read bus cell = Bus.read bus' cell) :
    Bus.readWord bus a = Bus.readWord bus' a := by
  rw [readWord, readWord, h a (mem_cellsFrom_self a (by decide)),
    h (a + 1) (succ_mem_cellsFrom a (by decide))]

/-- The two cells of a pointer in page zero, which it does not leave. -/
def pointerInZeroPage (p : Byte) : List Address := [p.toUInt16, (p + 1).toUInt16]

theorem Bus.readZeroPageWord_congr_of_agree {p : Byte}
    (h : ∀ cell ∈ pointerInZeroPage p, Bus.read bus cell = Bus.read bus' cell) :
    Bus.readZeroPageWord bus p = Bus.readZeroPageWord bus' p := by
  rw [readZeroPageWord, readZeroPageWord, h _ List.mem_cons_self,
    h _ (List.mem_cons_of_mem _ List.mem_cons_self)]

theorem stackWord_congr_of_agree {sp : Byte}
    (h : ∀ cell ∈ cellsAbove sp 2, Bus.read bus cell = Bus.read bus' cell) :
    stackWord bus sp = stackWord bus' sp := by
  have hsp : sp + 1 + 1 = sp + 2 := UInt8.add_assoc _ _ _
  rw [stackWord, stackWord, ← hsp, h _ List.mem_cons_self,
    h _ (List.mem_cons_of_mem _ List.mem_cons_self)]

/-! ### Finding the instruction and its operand -/

/-- The cells of the pointer through which an indirect mode finds its operand. -/
def pointerCells (bus : σ) (mode : AddressingMode) (cursor : Address) (x : Byte) :
    List Address :=
  match mode with
  | .indirect => cellsFrom (Bus.readWord bus cursor) 2
  | .indirectX => pointerInZeroPage (Bus.read bus cursor + x)
  | .indirectY => pointerInZeroPage (Bus.read bus cursor)
  | _ => []

/-- Buses that agree in the bytes behind the opcode and in the pointer resolve alike. -/
theorem resolve_congr_of_agree {mode : AddressingMode} {cursor : Address} {x : Byte}
    (hcode : ∀ cell ∈ cellsFrom cursor mode.operandLength,
      Bus.read bus cell = Bus.read bus' cell)
    (hpointer : ∀ cell ∈ pointerCells bus mode cursor x, Bus.read bus cell = Bus.read bus' cell)
    (y : Byte) : resolve bus mode cursor x y = resolve bus' mode cursor x y := by
  cases mode with
  | implied | accumulator | immediate => rfl
  | zeroPage | zeroPageX | zeroPageY | relative =>
      have hbyte := hcode cursor (mem_cellsFrom_self cursor (by decide))
      simp only [resolve, fetchByte, hbyte]
  | absolute | absoluteX | absoluteY =>
      have hword := Bus.readWord_congr_of_agree hcode
      simp only [Bus.readWord] at hword
      simp only [resolve, fetchWord, fetchByte, hword]
  | indirect =>
      have hword : wordOf (Bus.read bus cursor) (Bus.read bus (cursor + 1)) =
          wordOf (Bus.read bus' cursor) (Bus.read bus' (cursor + 1)) :=
        Bus.readWord_congr_of_agree hcode
      have htarget := Bus.readWord_congr_of_agree hpointer
      simp only [Bus.readWord, hword] at htarget
      simp only [resolve, fetchWord, fetchByte, Bus.readWord, hword, htarget]
  | indirectX | indirectY =>
      have hbyte := hcode cursor (mem_cellsFrom_self cursor (by decide))
      have htarget := Bus.readZeroPageWord_congr_of_agree hpointer
      rw [hbyte] at htarget
      simp only [resolve, fetchByte, hbyte, htarget]

/--
The cells that decoding looks at: the opcode, and behind one that names an instruction the
bytes that belong to it and the pointer that they name.
-/
def decodeCells (bus : σ) (a : Address) (x : Byte) : List Address :=
  a :: match Opcode.lookup (Bus.read bus a) with
    | none => []
    | some entry =>
        cellsFrom (a + 1) entry.mode.operandLength ++ pointerCells bus entry.mode (a + 1) x

theorem decodeCells_of_decode {a : Address} {x y : Byte} {d : Decoded}
    (h : decode bus a x y = some d) :
    decodeCells bus a x =
      a :: (cellsFrom (a + 1) d.mode.operandLength ++ pointerCells bus d.mode (a + 1) x) := by
  obtain ⟨entry, hentry, rfl⟩ := exists_entry_of_decode h
  rw [decodeCells, hentry]

theorem decode_congr_of_agree {a : Address} {x : Byte}
    (h : ∀ cell ∈ decodeCells bus a x, Bus.read bus cell = Bus.read bus' cell) (y : Byte) :
    decode bus a x y = decode bus' a x y := by
  have hopcode : Bus.read bus a = Bus.read bus' a := h a List.mem_cons_self
  cases hentry : Opcode.lookup (Bus.read bus a) with
  | none =>
      rw [decode_eq_none_iff.mpr hentry, decode_eq_none_iff.mpr (hopcode ▸ hentry)]
  | some entry =>
      rw [decodeCells, hentry] at h
      have hcode : ∀ cell ∈ cellsFrom (a + 1) entry.mode.operandLength,
          Bus.read bus cell = Bus.read bus' cell :=
        fun cell hcell => h cell (List.mem_cons_of_mem _ (List.mem_append_left _ hcell))
      have hresolve := resolve_congr_of_agree hcode
        (fun cell hcell => h cell (List.mem_cons_of_mem _ (List.mem_append_right _ hcell))) y
      have hbytes := Bus.readBytes_congr_of_agree hcode
      simp only [decode, ← hopcode, hentry, Option.map_some, hbytes, hresolve]

end

/-! ### Performing the instruction -/

/-- The memory cell that an operand is, if it is one. -/
def Operand.cells : Operand → List Address
  | .address a => [a]
  | _ => []

/--
The cells that an instruction of the family looks at once its operand is known.  One that
only writes its operand, or goes there, does not look at the byte in its place.
-/
def Family.reads (sp : Byte) (operand : Operand) : Family → List Address
  | load _ | accumulate _ | combine _ | compare _ | bitTest | modify _ => operand.cells
  | pullAccumulator | pullStatus => cellsAbove sp 1
  | returnFromCall => cellsAbove sp 2
  | returnFromInterrupt => cellsAbove sp 3
  | breakProgram => cellsFrom irqVector 2
  | _ => []

/-- The cells that the next tick looks at. -/
def Cpu.reads {σ : Type} [Bus σ] (c : Cpu σ) : List Address :=
  let m := c.machine
  if c.ready then
    decodeCells m.bus m.pc m.x ++
      match decode m.bus m.pc m.x m.y with
      | none => []
      | some d => d.instruction.family.reads m.sp d.operand
  else []

section

variable {σ : Type} [Bus σ] {c : Cpu σ} {a : Address}

theorem Cpu.mem_reads_of_mem_decodeCells (hready : c.ready = true)
    (h : a ∈ decodeCells c.machine.bus c.machine.pc c.machine.x) : a ∈ c.reads := by
  simp only [reads, if_pos hready]
  exact List.mem_append_left _ h

theorem Cpu.Fetches.mem_reads {d : Decoded} (hd : c.Fetches d)
    (h : a ∈ d.instruction.family.reads c.machine.sp d.operand) : a ∈ c.reads := by
  simp only [reads, if_pos hd.ready, hd.found]
  exact List.mem_append_right _ h

end

end Nmos6502
