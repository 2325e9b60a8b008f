/-
JSON values, read from their tokens.

The reader goes over the tokens once, with the containers that are still open on a
stack.  Between two tokens it knows what may come next, its `Focus`; a token either
moves it on or makes the text malformed.  A text is one value when the last token
leaves a complete value and no container open.  Nesting is bounded by nothing but the
length of the text.
-/
import Nmos6502.Json.Token

namespace Nmos6502

namespace Json

/--
A JSON value.  Members of an object stay in the order of the text, repeated names
included; a name or a string is absent if it is quoted text that stands for none.
-/
inductive Value
  /-- One of `true`, `false` and `null`. -/
  | word
  /-- A number written as digits alone. -/
  | natural (n : Nat)
  /-- Any other number. -/
  | number
  | text (content : Option String)
  | array (items : List Value)
  | object (members : List (Option String × Value))

/-- A member of an object. -/
abbrev Member := Option String × Value

/-- A container whose end has not been reached; what it holds so far is last first. -/
inductive Open
  /-- An array, waiting for an item. -/
  | array (items : List Value)
  /-- An object, waiting for the value of the member called `name`. -/
  | object (members : List Member) (name : Option String)

/-- What the reader is looking at between two tokens. -/
inductive Focus
  /-- A value must come next. -/
  | value
  /-- An array has just been opened. -/
  | arrayStart
  /-- An object has just been opened. -/
  | objectStart
  /-- A comma behind a member: another name must come next. -/
  | name (members : List Member)
  /-- A name: a colon must come next. -/
  | colon (members : List Member) (name : Option String)
  /-- A value is complete. -/
  | done (v : Value)

/-- The reader after the first token of a value. -/
def beginValue (stack : List Open) : Token → Option (Focus × List Open)
  | .word => some (.done .word, stack)
  | .natural n => some (.done (.natural n), stack)
  | .number => some (.done .number, stack)
  | .text content => some (.done (.text content), stack)
  | .openBracket => some (.arrayStart, stack)
  | .openBrace => some (.objectStart, stack)
  | _ => none

/-- The reader after one token, if the token may stand there. -/
def advance (state : Focus × List Open) (t : Token) : Option (Focus × List Open) :=
  let (focus, stack) := state
  match focus with
  | .value => beginValue stack t
  | .arrayStart =>
    match t with
    | .closeBracket => some (.done (.array []), stack)
    | t => beginValue (.array [] :: stack) t
  | .objectStart =>
    match t with
    | .closeBrace => some (.done (.object []), stack)
    | .text name => some (.colon [] name, stack)
    | _ => none
  | .name members =>
    match t with
    | .text name => some (.colon members name, stack)
    | _ => none
  | .colon members name =>
    match t with
    | .colon => some (.value, .object members name :: stack)
    | _ => none
  | .done v =>
    match stack, t with
    | .array items :: stack, .comma => some (.value, .array (v :: items) :: stack)
    | .array items :: stack, .closeBracket => some (.done (.array (v :: items).reverse), stack)
    | .object members name :: stack, .comma => some (.name ((name, v) :: members), stack)
    | .object members name :: stack, .closeBrace =>
      some (.done (.object ((name, v) :: members).reverse), stack)
    | _, _ => none

/-- The value that a row of tokens writes, if it writes exactly one. -/
def ofTokens? (tokens : List Token) : Option Value :=
  match tokens.foldlM advance (.value, []) with
  | some (.done v, []) => some v
  | _ => none

/-- The value that a text writes. -/
def parse? (text : String) : Option Value := do
  ofTokens? (← tokens? text.toList)

end Json

end Nmos6502
