/-
Snapshots as JSON.

A snapshot is written as one object without blanks, its members in a fixed order, the
status as the text of its flags.  Reading asks for less: the members may come in any
order with anything else between them, as long as each of the six is there exactly
once, and the six values may also stand in an array in the order of writing.  Numbers
must be plain digits and fit their register.  What has been read is written again in
the one canonical form.
-/
import Nmos6502.Json.Value
import Nmos6502.Snapshot
import Nmos6502.Status.Text

namespace Nmos6502

namespace Snapshot

/-- The one written form of a snapshot. -/
def render (s : Snapshot) : String :=
  "\x7b\"a\":" ++ toString s.a.toNat ++ ",\"x\":" ++ toString s.x.toNat ++
    ",\"y\":" ++ toString s.y.toNat ++ ",\"sp\":" ++ toString s.sp.toNat ++
    ",\"pc\":" ++ toString s.pc.toNat ++ ",\"status\":\"" ++ s.status.render ++ "\"\x7d"

/-! ### Reading -/

/-- A register's byte. -/
def byte? : Json.Value → Option Byte
  | .natural n => if n < 256 then some (UInt8.ofNat n) else none
  | _ => none

/-- The program counter. -/
def address? : Json.Value → Option Address
  | .natural n => if n < 65536 then some (UInt16.ofNat n) else none
  | _ => none

/-- The status register. -/
def status? : Json.Value → Option Status
  | .text (some text) => Status.parse? text
  | _ => none

/-- A snapshot from the values of its registers, in the order of writing. -/
def ofValues? (a x y sp pc status : Json.Value) : Option Snapshot := do
  let a ← byte? a
  let x ← byte? x
  let y ← byte? y
  let sp ← byte? sp
  let pc ← address? pc
  let status ← status? status
  return { a, x, y, sp, pc, status }

/-- The value of the one member of a name; none if there is no such member or more than one. -/
def member? (members : List Json.Member) (name : String) : Option Json.Value :=
  match members.filter fun m => m.1 == some name with
  | [(_, v)] => some v
  | _ => none

/-- A snapshot from a JSON value.  Every name of an object must stand for a text. -/
def ofValue? : Json.Value → Option Snapshot
  | .object members =>
    if members.all fun m => m.1.isSome then do
      ofValues? (← member? members "a") (← member? members "x") (← member? members "y")
        (← member? members "sp") (← member? members "pc") (← member? members "status")
    else none
  | .array [a, x, y, sp, pc, status] => ofValues? a x y sp pc status
  | _ => none

/-- Reads a snapshot. -/
def parse? (text : String) : Option Snapshot := do
  ofValue? (← Json.parse? text)

end Snapshot

end Nmos6502
