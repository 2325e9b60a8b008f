/-
The one way in which execution can fail.
-/
import Nmos6502.Text.Hex

namespace Nmos6502

/-- The byte that was fetched names no instruction. -/
structure IllegalOpcode where
  /-- The byte. -/
  opcode : Byte
  /-- Where it was. -/
  address : Address
  deriving DecidableEq, Repr

/-- What a reader is told. -/
def IllegalOpcode.message (e : IllegalOpcode) : String :=
  "illegal opcode $" ++ hexByte e.opcode ++ " at $" ++ hexAddress e.address

end Nmos6502
