/-
The status register as text.

A register is written as the names of the bits that are set, from bit 0 upward, with
a bar between two names and nothing for a register without bits.  Reading is laxer
than writing: names come in any order and may repeat, blanks may surround them, and a
part may also be a number after `0x`, whose bits are all set.  No bit is forced either
way, so each of the 256 registers has one written form and reads back from it.
-/
import Nmos6502.Status
import Nmos6502.Text.Blank
import Nmos6502.Text.Hex

namespace Nmos6502

/-- The name of a bit. -/
def Flag.name : Flag → String
  | carry => "CARRY"
  | zero => "ZERO"
  | interruptDisable => "INTERRUPT_DISABLE"
  | decimal => "DECIMAL"
  | brk => "BREAK"
  | unused => "UNUSED"
  | overflow => "OVERFLOW"
  | negative => "NEGATIVE"

/-- The flag of a name, spelled exactly. -/
def Flag.ofName? (name : List Char) : Option Flag :=
  Flag.all.find? fun f => f.name.toList == name

namespace Status

/-- The bits that are set, from bit 0 upward. -/
def flags (s : Status) : List Flag := Flag.all.filter s.get

/-- The names of the bits that are set, with a bar between two names. -/
def letters (s : Status) : List Char :=
  [' ', '|', ' '].intercalate (s.flags.map fun f => f.name.toList)

/-- The written form of the register. -/
def render (s : Status) : String := String.ofList s.letters

/-- The register as it shows itself to a programmer, a number where there is no name to show. -/
def describe (s : Status) : String :=
  "Status(" ++ (if s = none then "0x0" else s.render) ++ ")"

/-! ### Reading -/

/-- Every bit that is set in one of the two registers. -/
def union (s t : Status) : Status := s.assign t true

/-- The parts of a text between its bars; a text without a bar is one part. -/
def splitBars : List Char → List (List Char)
  | [] => [[]]
  | c :: cs =>
    match splitBars cs with
    | [] => [[c]]
    | part :: parts => if c = '|' then [] :: part :: parts else (c :: part) :: parts

/-- The number that a non-empty row of hexadecimal digits stands for, if it fits a byte. -/
def hexBits? : List Char → Option Byte
  | [] => Option.none
  | cs => do
    let digits ← cs.mapM hexValue?
    let n := digits.foldl (fun n d => 16 * n + d) 0
    if n < 256 then some (UInt8.ofNat n) else Option.none

/--
One part of a written register: the exact name of a bit, or `0x` and a number, in
front of whose digits a plus sign may stand.
-/
def readPart? : List Char → Option Status
  | '0' :: 'x' :: '+' :: digits => (hexBits? digits).map ofByte
  | '0' :: 'x' :: digits => (hexBits? digits).map ofByte
  | name => (Flag.ofName? name).map fun f => none.set f true

/-- The register that letters write: none for blank text, and no part may be empty. -/
def ofLetters? (cs : List Char) : Option Status :=
  if (trimBlanks cs).isEmpty then some none
  else ((splitBars cs).map trimBlanks).foldlM (fun s part => (readPart? part).map s.union) none

/-- Reads a register. -/
def parse? (text : String) : Option Status := ofLetters? text.toList

/-! ### Every register reads back from its written form -/

theorem ofLetters?_letters (s : Status) : ofLetters? s.letters = some s := by
  have h : ∀ c z i d b u v n : Bool,
      ofLetters? (letters ⟨c, z, i, d, b, u, v, n⟩) = some ⟨c, z, i, d, b, u, v, n⟩ := by
    decide +kernel
  exact h s.carry s.zero s.interruptDisable s.decimal s.brk s.unused s.overflow s.negative

theorem parse?_render (s : Status) : parse? s.render = some s := by
  simp [parse?, render, ofLetters?_letters]

example : (ofByte 0x21).letters = "CARRY | UNUSED".toList := by decide +kernel

example : ofLetters? " ZERO|0x1 | ZERO ".toList = some (ofByte 0x03) := by decide +kernel

example : ofLetters? "CARRY |".toList = Option.none := by decide +kernel

end Status

end Nmos6502
