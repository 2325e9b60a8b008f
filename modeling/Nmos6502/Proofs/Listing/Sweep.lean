/-
A sweep as a list of lines.

The sweep takes its lines into an array as it goes.  Here they come out as a list that
starts with the line at the cursor and goes on with the sweep behind it, and
`sweep_induction` is the induction that goes with this: the property holds where the
cursor is past the end, and passes from the cursor behind a line to the line.
-/
import Nmos6502.Proofs.Listing.Text

namespace Nmos6502

section

variable {σ : Type} [Bus σ]

/-- The lines of a sweep, first to last. -/
def sweepLines (bus : σ) (x y : Byte) (last cursor : Nat) : List Line :=
  (sweep bus x y last cursor #[]).toList

theorem toList_lines_disassemble (bus : σ) (start last : Address) (x y : Byte) :
    (disassemble bus start last x y).lines.toList =
      sweepLines bus x y last.toNat start.toNat := rfl

theorem sweepLines_of_lt {bus : σ} {x y : Byte} {last cursor : Nat} (h : last < cursor) :
    sweepLines bus x y last cursor = [] := by
  rw [sweepLines, sweep_of_lt h]

theorem sweepLines_of_le {bus : σ} {x y : Byte} {last cursor : Nat} (h : cursor ≤ last) :
    sweepLines bus x y last cursor =
      lineAt bus (UInt16.ofNat cursor) x y ::
        sweepLines bus x y last (cursor + (lineAt bus (UInt16.ofNat cursor) x y).size) := by
  have hpush : (#[].push (lineAt bus (UInt16.ofNat cursor) x y) : Array Line) =
      #[lineAt bus (UInt16.ofNat cursor) x y] ++ #[] := rfl
  rw [sweepLines, sweep_of_le h, hpush, sweep_append, Array.toList_append]
  rfl

/-- What holds past the end and passes from behind a line to the line holds of every sweep. -/
theorem sweep_induction {motive : Nat → Prop} (bus : σ) (x y : Byte) (last : Nat)
    (past : ∀ cursor, last < cursor → motive cursor)
    (line : ∀ cursor, cursor ≤ last →
      motive (cursor + (lineAt bus (UInt16.ofNat cursor) x y).size) → motive cursor) :
    ∀ cursor, motive cursor := by
  intro cursor
  induction hleft : last + 1 - cursor using Nat.strongRecOn generalizing cursor with
  | ind left ih =>
      by_cases hle : cursor ≤ last
      · have hpos := (lineAt bus (UInt16.ofNat cursor) x y).size_pos
        exact line cursor hle (ih _ (by omega) _ rfl)
      · exact past cursor (by omega)

/-! ### What a sweep covers -/

/-- How many bytes a row of lines covers. -/
def covered : List Line → Nat
  | [] => 0
  | line :: lines => line.size + covered lines

@[simp] theorem covered_nil : covered [] = 0 := rfl

@[simp] theorem covered_cons (line : Line) (lines : List Line) :
    covered (line :: lines) = line.size + covered lines := rfl

/-- A sweep goes on until it is past the end. -/
theorem lt_add_covered_sweepLines (bus : σ) (x y : Byte) (last : Nat) :
    ∀ cursor, last < cursor + covered (sweepLines bus x y last cursor) := by
  refine sweep_induction bus x y last ?_ ?_
  · intro cursor hlt
    exact Nat.lt_add_right _ hlt
  · intro cursor hle ih
    rw [sweepLines_of_le hle, covered_cons, ← Nat.add_assoc]
    exact ih

/-- The lines of a sweep follow one another, up to the end of the last one. -/
theorem last_sweepLines (bus : σ) (x y : Byte) {last : Nat} (hlast : last < 65536) :
    ∀ cursor, cursor ≤ last →
      ∃ line, (sweepLines bus x y last cursor).getLast? = some line ∧
        line.address.toNat + line.size = cursor + covered (sweepLines bus x y last cursor) := by
  refine sweep_induction bus x y last ?_ ?_
  · intro cursor hlt hle
    omega
  · intro cursor hle ih _
    rw [sweepLines_of_le hle, covered_cons]
    set head := lineAt bus (UInt16.ofNat cursor) x y with hhead
    have haddress : head.address.toNat = cursor := by
      rw [hhead, address_lineAt, UInt16.toNat_ofNat']
      exact Nat.mod_eq_of_lt (by omega)
    by_cases hnext : cursor + head.size ≤ last
    · obtain ⟨line, hline, hend⟩ := ih hnext
      refine ⟨line, ?_, by omega⟩
      rw [List.getLast?_cons, hline]
      rfl
    · rw [sweepLines_of_lt (by omega)]
      exact ⟨head, rfl, by rw [haddress, covered_nil, Nat.add_zero]⟩

end

end Nmos6502
