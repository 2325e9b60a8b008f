/-
Passes of shifts over cells and accumulator.

`Executions` is a row of instructions executed one after another, each on an operand of
its own.  It asks of what comes between two of them only that memory, accumulator and carry
are kept, so the row may be straight code, a loop or a handful of calls.  A `pass` executes
an instruction on one place after another, and what it leaves is what `shiftThrough` makes
of the bytes in these places, `Executions.shiftThrough_pass`: each execution reads its byte
and the carry before it stores its own, and no place but its own changes.

The induction goes over the places.  They are distinct, so the byte that an instruction of
the pass finds in its place is the one that was there before the pass.
-/
import Mathlib.Data.List.Nodup
import Nmos6502.Memory
import Nmos6502.Proofs.Fetch
import Nmos6502.Proofs.Shift.Bytes

namespace Nmos6502

/-! ### What shifts work on -/

namespace Machine

/-- Two machines have the same memory, accumulator and carry. -/
structure SameData {σ : Type} (m n : Machine σ) : Prop where
  bus : m.bus = n.bus
  a : m.a = n.a
  carry : m.status.carry = n.status.carry

theorem SameData.refl {σ : Type} (m : Machine σ) : m.SameData m := ⟨rfl, rfl, rfl⟩

theorem SameData.operandValue {σ : Type} [Bus σ] {m n : Machine σ} (h : m.SameData n)
    (o : Operand) : m.operandValue o = n.operandValue o := by
  cases o with
  | accumulator => exact h.a
  | address a => exact congrArg (Bus.read · a) h.bus
  | _ => rfl

/-- Memory and accumulator are the operands there are. -/
theorem sameData_of_operandValue {m n : Machine Memory}
    (h : ∀ o, m.operandValue o = n.operandValue o) (hcarry : m.status.carry = n.status.carry) :
    m.SameData n where
  bus := Memory.ext fun a => h (.address a)
  a := h .accumulator
  carry := hcarry

/-- The number that lies in these places, low byte first. -/
def number {σ : Type} [Bus σ] (m : Machine σ) (places : List Operand) : Nat :=
  littleEndian (places.map m.operandValue)

end Machine

/-! ### One execution -/

namespace Cpu

section

variable {σ : Type} [Bus σ]

/-- The next tick executes this instruction on this operand. -/
def ExecutesOn (c : Cpu σ) (i : Instruction) (o : Operand) : Prop :=
  ∃ d, c.Fetches d ∧ d.instruction = i ∧ d.operand = o

/--
Instructions executed one after another, each on its operand, from the first machine to
the second.  Between two executions anything may happen that keeps memory, accumulator and
carry.
-/
inductive Executions : List (Instruction × Operand) → Machine σ → Machine σ → Prop
  | done {m n : Machine σ} (h : m.SameData n) : Executions [] m n
  | next {m n : Machine σ} {c : Cpu σ} {i : Instruction} {o : Operand}
      {ops : List (Instruction × Operand)} (h : m.SameData c.machine) (hnow : c.ExecutesOn i o)
      (rest : Executions ops c.tick.2.machine n) : Executions ((i, o) :: ops) m n

theorem Executions.of_append {ops ops' : List (Instruction × Operand)} :
    ∀ {m n : Machine σ}, Executions (ops ++ ops') m n →
      ∃ k, Executions ops m k ∧ Executions ops' k n := by
  induction ops with
  | nil => intro m n h; exact ⟨m, .done (.refl m), h⟩
  | cons op ops ih =>
      intro m n h
      cases h with
      | next hgap hnow rest =>
          obtain ⟨k, hfirst, hsecond⟩ := ih rest
          exact ⟨k, .next hgap hnow hfirst, hsecond⟩

/-- A shift keeps the index registers and goes on to what is behind it. -/
theorem Fetches.goesOn_of_modify {c : Cpu σ} {d : Decoded} (hd : c.Fetches d)
    {op : Byte → Bool → Shifted} (hop : d.instruction.family = .modify op) :
    let m := c.tick.2.machine
    m.x = c.machine.x ∧ m.y = c.machine.y ∧ m.pc = c.machine.pc + UInt16.ofNat d.size := by
  have huses := hd.usesOperand
  rw [Decoded.UsesOperand, hop] at huses
  obtain ⟨_, _, hafter⟩ | ⟨_, hafter⟩ := huses
  · rw [hafter]
    exact ⟨rfl, rfl, rfl⟩
  · rw [hafter]
    exact ⟨rfl, rfl, rfl⟩

end

/--
A shift puts its result where its byte came from, and what fell out into the carry; byte
and carry are those of the machine before it, and no other place changes.
-/
theorem ExecutesOn.shifts {c : Cpu Memory} {i : Instruction} {o : Operand}
    (h : c.ExecutesOn i o) {op : Byte → Bool → Shifted} (hop : i.family = .modify op) :
    let s := op (c.machine.operandValue o) c.machine.status.carry
    let m := c.tick.2.machine
    m.operandValue o = s.value ∧ m.status.carry = s.carry ∧
      ∀ o' ≠ o, m.operandValue o' = c.machine.operandValue o' := by
  obtain ⟨d, hd, rfl, rfl⟩ := h
  have huses := hd.usesOperand
  rw [Decoded.UsesOperand, hop] at huses
  obtain ⟨cell, hcell, hafter⟩ | ⟨haccumulator, hafter⟩ := huses
  · rw [hafter, hcell]
    refine ⟨Memory.get_set_self _ _ _, rfl, ?_⟩
    intro o' hne
    cases o' with
    | address a => exact Memory.get_set_ne _ (fun ha => hne (congrArg _ ha.symm)) _
    | _ => rfl
  · rw [hafter, haccumulator]
    refine ⟨rfl, rfl, ?_⟩
    intro o' hne
    cases o' with
    | accumulator => exact absurd rfl hne
    | _ => rfl

/-- **Shifts change no place but those that they work on.** -/
theorem Executions.untouched {ops : List (Instruction × Operand)}
    (hshift : ∀ op ∈ ops, ∃ f, op.1.family = .modify f) :
    ∀ {m n : Machine Memory}, Executions ops m n →
      ∀ o ∉ ops.map Prod.snd, n.operandValue o = m.operandValue o := by
  induction ops with
  | nil =>
      intro m n h o _
      cases h with
      | done hsame => exact (hsame.operandValue o).symm
  | cons op ops ih =>
      intro m n h o ho
      obtain ⟨f, hf⟩ := hshift op List.mem_cons_self
      cases h with
      | next hgap hnow rest =>
          obtain ⟨-, -, hkept⟩ := hnow.shifts hf
          have hrest := ih (fun op' hop' => hshift op' (List.mem_cons_of_mem _ hop')) rest o
            (List.not_mem_of_not_mem_cons ho)
          rw [hrest, hkept o (List.ne_of_not_mem_cons ho), hgap.operandValue]

/-! ### A pass -/

/-- One instruction on the first of some places and another on all that follow. -/
def pass (first rest : Instruction) : List Operand → List (Instruction × Operand)
  | [] => []
  | p :: ps => (first, p) :: ps.map fun q => (rest, q)

theorem mem_pass {first rest : Instruction} {places : List Operand}
    {op : Instruction × Operand} (h : op ∈ pass first rest places) :
    (op.1 = first ∨ op.1 = rest) ∧ op.2 ∈ places := by
  cases places with
  | nil => exact absurd h List.not_mem_nil
  | cons p ps =>
      rcases List.mem_cons.mp h with rfl | hrest
      · exact ⟨Or.inl rfl, List.mem_cons_self⟩
      · obtain ⟨q, hq, rfl⟩ := List.mem_map.mp hrest
        exact ⟨Or.inr rfl, List.mem_cons_of_mem _ hq⟩

/-- One execution more in front, on a place that those behind it leave alone. -/
theorem ExecutesOn.shiftThrough_cons {c : Cpu Memory} {first rest : Instruction} {p : Operand}
    {ps : List Operand} {n : Machine Memory} {op : Byte → Bool → Shifted} (enter : Bool → Bool)
    (hnow : c.ExecutesOn first p) (hfirst : first.family = .modify fun v b => op v (enter b))
    (hrest : rest.family = .modify op) (hp : p ∉ ps)
    (hafter : Executions (ps.map fun q => (rest, q)) c.tick.2.machine n)
    (h : shiftThrough op (ps.map c.tick.2.machine.operandValue) c.tick.2.machine.status.carry =
      (ps.map n.operandValue, n.status.carry)) :
    shiftThrough op ((p :: ps).map c.machine.operandValue) (enter c.machine.status.carry) =
      ((p :: ps).map n.operandValue, n.status.carry) := by
  obtain ⟨hvalue, hcarry, hkept⟩ := hnow.shifts hfirst
  have hbytes : ps.map c.tick.2.machine.operandValue = ps.map c.machine.operandValue :=
    List.map_congr_left fun o ho => hkept o fun hop => hp (hop ▸ ho)
  have hsame : n.operandValue p = c.tick.2.machine.operandValue p := by
    refine hafter.untouched ?_ p (by simpa using hp)
    intro op' hop'
    obtain ⟨q, -, rfl⟩ := List.mem_map.mp hop'
    exact ⟨op, hrest⟩
  rw [hbytes, hcarry] at h
  rw [List.map_cons, List.map_cons, shiftThrough, h, hsame, hvalue]

theorem Executions.shiftThrough_map {i : Instruction} {op : Byte → Bool → Shifted}
    (hop : i.family = .modify op) {places : List Operand} :
    ∀ {m n : Machine Memory}, places.Nodup → Executions (places.map fun p => (i, p)) m n →
      shiftThrough op (places.map m.operandValue) m.status.carry =
        (places.map n.operandValue, n.status.carry) := by
  induction places with
  | nil =>
      intro m n _ h
      cases h with
      | done hsame => exact congrArg (Prod.mk []) hsame.carry
  | cons p ps ih =>
      intro m n hnodup h
      obtain ⟨hp, hps⟩ := List.nodup_cons.mp hnodup
      cases h with
      | next hgap hnow rest =>
          rw [funext hgap.operandValue, hgap.carry]
          exact hnow.shiftThrough_cons id hop hop hp rest (ih hps rest)

/--
**A pass over distinct places leaves what a shift through their bytes leaves.**  What goes
in first is up to the first instruction.
-/
theorem Executions.shiftThrough_pass {first rest : Instruction} {op : Byte → Bool → Shifted}
    (enter : Bool → Bool) (hfirst : first.family = .modify fun v b => op v (enter b))
    (hrest : rest.family = .modify op) {places : List Operand} (hplaces : places ≠ [])
    (hnodup : places.Nodup) {m n : Machine Memory} (h : Executions (pass first rest places) m n) :
    shiftThrough op (places.map m.operandValue) (enter m.status.carry) =
      (places.map n.operandValue, n.status.carry) := by
  cases places with
  | nil => exact absurd rfl hplaces
  | cons p ps =>
      obtain ⟨hp, hps⟩ := List.nodup_cons.mp hnodup
      cases h with
      | next hgap hnow hafter =>
          have htail := hafter.shiftThrough_map hrest hps
          rw [funext hgap.operandValue, hgap.carry]
          exact hnow.shiftThrough_cons enter hfirst hrest hp hafter htail

/-! ### What passes do to the number in their places -/

section

variable {places : List Operand} (hplaces : places ≠ []) (hnodup : places.Nodup)
  {m n : Machine Memory} {first : Instruction} (enter : Bool → Bool)

include hplaces hnodup

/-- From the lowest place to the highest, the number is doubled. -/
theorem Executions.number_up
    (hfirst : first.family = .modify fun v b => shiftLeft v (enter b))
    (h : Executions (pass first .rol places) m n) :
    n.number places + 256 ^ places.length * n.status.carry.toNat =
      2 * m.number places + (enter m.status.carry).toNat := by
  have hrow := carryAbove_shiftThrough (places.map m.operandValue) (enter m.status.carry)
  rw [h.shiftThrough_pass enter hfirst rfl hplaces hnodup] at hrow
  simpa only [Machine.number, carryAbove, carryBelow, List.length_map] using hrow

theorem Executions.shiftThrough_reverse
    (hfirst : first.family = .modify fun v b => shiftRight v (enter b))
    (h : Executions (pass first .ror places.reverse) m n) :
    shiftThrough shiftRight (places.map m.operandValue).reverse (enter m.status.carry) =
      ((places.map n.operandValue).reverse, n.status.carry) := by
  have hrow := h.shiftThrough_pass enter hfirst rfl (List.reverse_ne_nil_iff.mpr hplaces)
    (List.nodup_reverse.mpr hnodup)
  rwa [List.map_reverse, List.map_reverse] at hrow

/-- From the highest place to the lowest, it is halved. -/
theorem Executions.number_down
    (hfirst : first.family = .modify fun v b => shiftRight v (enter b))
    (h : Executions (pass first .ror places.reverse) m n) :
    2 * n.number places + n.status.carry.toNat =
      m.number places + 256 ^ places.length * (enter m.status.carry).toNat := by
  have hrow := carryBelow_shiftThrough (places.map m.operandValue).reverse (enter m.status.carry)
  rw [h.shiftThrough_reverse hplaces hnodup enter hfirst] at hrow
  simpa only [Machine.number, carryAbove, carryBelow, List.reverse_reverse, List.length_map]
    using hrow

/-- Rotating down puts back what rotating up has moved. -/
theorem Executions.down_of_up
    (h : Executions (pass .rol .rol places ++ pass .ror .ror places.reverse) m n) :
    (places.map n.operandValue, n.status.carry) =
      (places.map m.operandValue, m.status.carry) := by
  obtain ⟨k, hup, hdown⟩ := h.of_append
  have hundone := shiftThrough_right_of_left (hup.shiftThrough_pass id rfl rfl hplaces hnodup)
  have hrow := hdown.shiftThrough_reverse hplaces hnodup id rfl
  obtain ⟨hbytes, hcarry⟩ := Prod.mk.inj (hrow.symm.trans hundone)
  exact Prod.ext (List.reverse_injective hbytes) hcarry

/-- Rotating up puts back what rotating down has moved. -/
theorem Executions.up_of_down
    (h : Executions (pass .ror .ror places.reverse ++ pass .rol .rol places) m n) :
    (places.map n.operandValue, n.status.carry) =
      (places.map m.operandValue, m.status.carry) := by
  obtain ⟨k, hdown, hup⟩ := h.of_append
  have hundone := shiftThrough_left_of_right (hdown.shiftThrough_reverse hplaces hnodup id rfl)
  have hrow := hup.shiftThrough_pass id rfl rfl hplaces hnodup
  rw [List.reverse_reverse, List.reverse_reverse] at hundone
  exact hrow.symm.trans hundone

/-- So many rotations from the lowest place to the highest are so many turns of the row. -/
theorem Executions.turned (count : Nat) :
    ∀ {m : Machine Memory},
      Executions (List.replicate count (pass .rol .rol places)).flatten m n →
      (places.map n.operandValue, n.status.carry) =
        turn^[count] (places.map m.operandValue, m.status.carry) := by
  induction count with
  | zero =>
      intro m h
      cases h with
      | done hsame => rw [← funext hsame.operandValue, ← hsame.carry]; rfl
  | succ count ih =>
      intro m h
      rw [List.replicate_succ, List.flatten_cons] at h
      obtain ⟨k, hfirst, hrest⟩ := h.of_append
      have hturn := hfirst.shiftThrough_pass id rfl rfl hplaces hnodup
      rw [ih hrest, ← hturn]
      rfl

end

/-- Where a row of shifts puts every byte of its places back, it puts everything back. -/
theorem Executions.sameData_of_bytes {places : List Operand} {ops : List (Instruction × Operand)}
    (hops : ∀ op ∈ ops, (∃ f, op.1.family = .modify f) ∧ op.2 ∈ places) {m n : Machine Memory}
    (h : Executions ops m n)
    (hback : (places.map n.operandValue, n.status.carry) =
      (places.map m.operandValue, m.status.carry)) : n.SameData m := by
  obtain ⟨hbytes, hcarry⟩ := Prod.mk.inj hback
  refine Machine.sameData_of_operandValue ?_ hcarry
  intro o
  by_cases ho : o ∈ places
  · exact List.map_inj_left.mp hbytes o ho
  · refine h.untouched (fun op hop => (hops op hop).1) o ?_
    intro hmem
    obtain ⟨op, hop, rfl⟩ := List.mem_map.mp hmem
    exact ho (hops op hop).2

end Cpu

end Nmos6502
