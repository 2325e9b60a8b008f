/-
Listings of a stretch of memory.

A sweep starts at the first address and takes one line after another: an instruction
with all its bytes, or a single byte that names none.  It stops behind the last
address.  The cursor is a natural number and not an address, so a line that runs past
the end of memory ends the sweep instead of wrapping it; every line covers at least
one byte, and the distance to the end of the range is what makes the sweep finite.
-/
import Nmos6502.Decoded.Text

namespace Nmos6502

/-- One line of a listing. -/
inductive Line
  /-- An instruction with its operand bytes. -/
  | code (d : Decoded)
  /-- A byte that names no instruction. -/
  | data (address : Address) (byte : Byte)
  deriving DecidableEq, Repr

namespace Line

/-- Where the line's first byte is. -/
def address : Line → Address
  | code d => d.address
  | data a _ => a

/-- How many bytes the line covers. -/
def size : Line → Nat
  | code d => d.size
  | data _ _ => 1

/-- What the line says. -/
def text : Line → String
  | code d => d.text
  | data a b => undefinedText a b

theorem size_pos (line : Line) : 0 < line.size := by
  cases line with
  | code d => exact Nat.lt_add_right _ Nat.one_pos
  | data a b => exact Nat.one_pos

end Line

/-- The lines of a sweep in the order in which they were visited. -/
structure Listing where
  lines : Array Line
  deriving DecidableEq, Repr

namespace Listing

/-- The listing of nothing. -/
def empty : Listing := ⟨#[]⟩

instance : Inhabited Listing := ⟨empty⟩

/-- The number of lines. -/
def size (l : Listing) : Nat := l.lines.size

/-- Whether there is no line. -/
def isEmpty (l : Listing) : Bool := l.lines.isEmpty

/-- The addresses of the lines in the order of the sweep. -/
def order (l : Listing) : Array Address := l.lines.map Line.address

/-- What the listing shows: every line's address and text, in the order of the sweep. -/
def entries (l : Listing) : Array (Address × String) :=
  l.lines.map fun line => (line.address, line.text)

/-- The text of the line that starts at an address, if one does. -/
def text? (l : Listing) (a : Address) : Option String :=
  (l.lines.find? fun line => line.address == a).map Line.text

end Listing

section

variable {σ : Type} [Bus σ]

/-- The line that a listing has at an address. -/
def lineAt (bus : σ) (a : Address) (x y : Byte) : Line :=
  match decode bus a x y with
  | some d => .code d
  | none => .data a (Bus.read bus a)

/-- The lines from `cursor` to `last` behind those already taken. -/
def sweep (bus : σ) (x y : Byte) (last cursor : Nat) (taken : Array Line) : Array Line :=
  if cursor ≤ last then
    let line := lineAt bus (UInt16.ofNat cursor) x y
    sweep bus x y last (cursor + line.size) (taken.push line)
  else taken
termination_by last + 1 - cursor
decreasing_by
  have := (lineAt bus (UInt16.ofNat cursor) x y).size_pos
  omega

theorem sweep_of_lt {bus : σ} {x y : Byte} {last cursor : Nat} (h : last < cursor)
    (taken : Array Line) : sweep bus x y last cursor taken = taken := by
  rw [sweep, if_neg (by omega)]

theorem sweep_of_le {bus : σ} {x y : Byte} {last cursor : Nat} (h : cursor ≤ last)
    (taken : Array Line) :
    sweep bus x y last cursor taken =
      sweep bus x y last (cursor + (lineAt bus (UInt16.ofNat cursor) x y).size)
        (taken.push (lineAt bus (UInt16.ofNat cursor) x y)) := by
  rw [sweep, if_pos h]

/-- The lines already taken are kept in front and decide nothing. -/
theorem sweep_append (bus : σ) (x y : Byte) (last cursor : Nat) (front taken : Array Line) :
    sweep bus x y last cursor (front ++ taken) = front ++ sweep bus x y last cursor taken := by
  fun_induction sweep bus x y last cursor taken with
  | case1 cursor taken h line ih =>
      rw [sweep_of_le h, ← Array.append_push]
      exact ih
  | case2 cursor taken h => rw [sweep_of_lt (by omega)]

/-- The listing of the addresses from `start` to `last`, both included. -/
def disassemble (bus : σ) (start last : Address) (x y : Byte) : Listing :=
  ⟨sweep bus x y last.toNat start.toNat #[]⟩

end

end Nmos6502
