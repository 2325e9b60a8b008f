/-
Programs written as hexadecimal text.

Two digits make a byte.  Blanks may stand anywhere, even between the two digits of a
byte, and letters may be of either case.  A character that is neither is reported with
its place in the text, before anything is said about the number of digits; a program
that does not read as a whole leaves memory as it was.
-/
import Nmos6502.Memory
import Nmos6502.Text.Blank
import Nmos6502.Text.Hex
import Nmos6502.Text.Quoted

namespace Nmos6502

/-- Why a text is not a program. -/
inductive LoadError
  /-- The digits do not pair up. -/
  | oddLength (digits : Nat)
  /-- A character is neither a digit nor blank; places are counted from zero, blanks included. -/
  | invalidDigit (position : Nat) (found : Char)
  deriving DecidableEq, Repr

/-- What a reader is told. -/
def LoadError.message : LoadError → String
  | oddLength digits => "hex program has an odd number of digits (" ++ toString digits ++ ")"
  | invalidDigit position found =>
    "invalid hex digit " ++ quoteChar found ++ " at position " ++ toString position

namespace HexProgram

/--
The values of the digits in a text, in order.  The text is what is left from `position`
on, and `read` holds the digits before it, the last one first.
-/
def readDigits : List Char → (position : Nat) → (read : List Nat) → Except LoadError (List Nat)
  | [], _, read => .ok read.reverse
  | c :: cs, position, read =>
    if isBlank c then readDigits cs (position + 1) read
    else
      match hexValue? c with
      | some d => readDigits cs (position + 1) (d :: read)
      | none => .error (.invalidDigit position c)

/-- The bytes that a row of digits makes, two to a byte, behind those in `made`, last first. -/
def joinDigits : List Nat → (made : List Byte) → List Byte
  | high :: low :: digits, made => joinDigits digits (UInt8.ofNat (16 * high + low) :: made)
  | _, made => made.reverse

/-- The bytes of a written program. -/
def decode (program : String) : Except LoadError (List Byte) := do
  let digits ← readDigits program.toList 0 []
  if digits.length % 2 = 0 then .ok (joinDigits digits [])
  else .error (.oddLength digits.length)

end HexProgram

/--
Loads a written program from `offset` on and gives the number of its bytes.  Memory
stays as it is if the text is not a program.
-/
def Memory.loadHex (m : Memory) (program : String) (offset : Address) :
    Except LoadError Nat × Memory :=
  match HexProgram.decode program with
  | .ok bytes => (.ok bytes.length, m.load bytes offset)
  | .error e => (.error e, m)

end Nmos6502
