/-
An instruction taken apart without being executed.

Decoding reads the bytes of an instruction and resolves its operand with a cursor of
its own, so it moves nothing and can be done between any two ticks.  The operand bytes
are read a second time behind the opcode, independently of the resolver's cursor; that
the two walks cover the same cells is a fact about the addressing modes.
-/
import Nmos6502.Opcode

namespace Nmos6502

/-- An instruction with everything that a listing says about it. -/
structure Decoded where
  /-- Where the opcode is. -/
  address : Address
  /-- The opcode. -/
  opcode : Byte
  instruction : Instruction
  mode : AddressingMode
  /-- The bytes behind the opcode, in the order of memory. -/
  operandBytes : List Byte
  /-- What those bytes name under the given index registers. -/
  operand : Operand
  /-- The base cost in cycles. -/
  cycles : Byte
  deriving DecidableEq, Repr

namespace Decoded

/-- The bytes of the instruction, opcode included. -/
def size (d : Decoded) : Nat := 1 + d.operandBytes.length

/-- Where a branch goes if it is taken. -/
def branchTarget (d : Decoded) : Option Address :=
  match d.operand with
  | .offset distance => some (d.address + UInt16.ofNat d.size + distance)
  | _ => none

end Decoded

/--
The instruction at an address, its operand resolved with the given index registers, if
the byte there names one.
-/
def decode {σ : Type} [Bus σ] (bus : σ) (address : Address) (x y : Byte) : Option Decoded :=
  let opcode := Bus.read bus address
  (Opcode.lookup opcode).map fun entry =>
    { address, opcode
      instruction := entry.instruction
      mode := entry.mode
      operandBytes := Bus.readBytes bus (address + 1) entry.mode.operandLength
      operand := (resolve bus entry.mode (address + 1) x y).1
      cycles := entry.cycles }

end Nmos6502
