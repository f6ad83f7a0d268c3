import ReactiveTemplate.Text.Span

/-!
# Faults in JSON text

A fault is a reason and the place where reading stopped. The place is kept as the number of bytes
left unread, so that readers need not count; `Fault.message` turns it into a line and a column.
-/

namespace ReactiveTemplate.Json

open ReactiveTemplate.Text

/-- Why a text is not JSON. -/
inductive Reason where
  | endInList
  | endInObject
  | endInString
  | endInValue
  | expectedColon
  | expectedListEnd
  | expectedObjectEnd
  | expectedWord
  | expectedValue
  | invalidEscape
  | invalidNumber
  | numberOutOfRange
  | controlCharacter
  | keyNotString
  | loneSurrogate
  | trailingComma
  | trailingCharacters
  | incompleteEscape
  | tooDeep
  deriving DecidableEq, Repr

/-- The wording of a reason. -/
def Reason.message : Reason → String
  | endInList => "EOF while parsing a list"
  | endInObject => "EOF while parsing an object"
  | endInString => "EOF while parsing a string"
  | endInValue => "EOF while parsing a value"
  | expectedColon => "expected `:`"
  | expectedListEnd => "expected `,` or `]`"
  | expectedObjectEnd => "expected `,` or `\x7d`"
  | expectedWord => "expected ident"
  | expectedValue => "expected value"
  | invalidEscape => "invalid escape"
  | invalidNumber => "invalid number"
  | numberOutOfRange => "number out of range"
  | controlCharacter => "control character (\\u0000-\\u001F) found while parsing a string"
  | keyNotString => "key must be a string"
  | loneSurrogate => "lone leading surrogate in hex escape"
  | trailingComma => "trailing comma"
  | trailingCharacters => "trailing characters"
  | incompleteEscape => "unexpected end of hex escape"
  | tooDeep => "recursion limit exceeded"

/-- A reason and the number of bytes that were not read. -/
structure Fault where
  reason : Reason
  unread : Nat
  deriving DecidableEq, Repr

namespace Fault

/-- A fault before the rest of a text. -/
def before (reason : Reason) (rest : List Char) : Fault :=
  ⟨reason, byteSize rest⟩

/-- A fault at the first byte of the rest of a text, which counts as read. -/
def past (reason : Reason) (rest : List Char) : Fault :=
  ⟨reason, byteSize rest - 1⟩

/-- The line of a place and its bytes within that line, both for the first `read` bytes. -/
def positionAfter : (read line column : Nat) → List Char → Nat × Nat
  | read, line, column, [] => (line, column + read)
  | read, line, column, c :: cs =>
    if read < c.utf8Size then (line, column + read)
    else if c = '\n' then positionAfter (read - c.utf8Size) (line + 1) 0 cs
    else positionAfter (read - c.utf8Size) line (column + c.utf8Size) cs

/-- The reason with the line and the column of its place, both counted from one on the line's bytes. -/
def message (fault : Fault) (text : String) : String :=
  let cs := text.toList
  let (line, column) := positionAfter (byteSize cs - fault.unread) 1 0 cs
  s!"{fault.reason.message} at line {line} column {column}"

end Fault

end ReactiveTemplate.Json
