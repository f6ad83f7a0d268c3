import ReactiveTemplate.Json.Value
import ReactiveTemplate.Decimal.Layout

/-!
# JSON text of values

`Value.compact` writes a value without blanks, `Value.pretty` with one item a line and two more
spaces at each level. Characters beyond ASCII are written as themselves.
-/

namespace ReactiveTemplate.Json

open ReactiveTemplate.Decimal

/-- Doubles have the fewest digits, positionally from `0.00001` up to sixteen places before the
point and with at least one place after it; an exact tie between digits goes to the even one. -/
def numberLayout : Layout :=
  ⟨.toEven, some (-5, 15), true⟩

/-- A number as JSON text; a double always shows a point or an exponent. -/
def Number.text : Number → String
  | .integer n => toString n
  | .float x => numberLayout.text x

/-- The digit of a number below sixteen. -/
def hexDigit (n : Nat) : Char :=
  Nat.digitChar n

/-- A character inside a quoted text. -/
def escapeChar (c : Char) : List Char :=
  if c = '"' then ['\\', '"']
  else if c = '\\' then ['\\', '\\']
  else if c = '\n' then ['\\', 'n']
  else if c = '\r' then ['\\', 'r']
  else if c = '\t' then ['\\', 't']
  else if c.toNat = 8 then ['\\', 'b']
  else if c.toNat = 12 then ['\\', 'f']
  else if c.toNat < 32 then ['\\', 'u', '0', '0', hexDigit (c.toNat / 16), hexDigit (c.toNat % 16)]
  else [c]

/-- A text in quotes. -/
def quote (text : String) : String :=
  "\"" ++ String.ofList (text.toList.flatMap escapeChar) ++ "\""

namespace Value

mutual

/-- A value without blanks. -/
def compact : Value → String
  | .null => "null"
  | .bool flag => if flag then "true" else "false"
  | .number n => n.text
  | .string text => quote text
  | .array items => "[" ++ ",".intercalate (compactItems items) ++ "]"
  | .object members => "\x7b" ++ ",".intercalate (compactMembers members) ++ "\x7d"

/-- Each item without blanks. -/
def compactItems : List Value → List String
  | [] => []
  | item :: rest => compact item :: compactItems rest

/-- Each member, its name in quotes, without blanks. -/
def compactMembers : List (String × Value) → List String
  | [] => []
  | (name, value) :: rest => (quote name ++ ":" ++ compact value) :: compactMembers rest

end

/-- A new line and the blanks of a level. -/
def newLine (level : Nat) : String :=
  "\n" ++ String.ofList (List.replicate (2 * level) ' ')

/-- Parts between two brackets, each on a line of its own, or the bare brackets if there are none. -/
def block (level : Nat) (opening closing : String) (parts : List String) : String :=
  if parts.isEmpty then opening ++ closing
  else
    opening ++ newLine (level + 1) ++ ("," ++ newLine (level + 1)).intercalate parts ++
      newLine level ++ closing

mutual

/-- A value that starts on a line of the given level, one part a line. -/
def pretty (level : Nat) : Value → String
  | .array items => block level "[" "]" (prettyItems (level + 1) items)
  | .object members => block level "\x7b" "\x7d" (prettyMembers (level + 1) members)
  | .null => "null"
  | .bool flag => if flag then "true" else "false"
  | .number n => n.text
  | .string text => quote text

/-- Each item at a level. -/
def prettyItems (level : Nat) : List Value → List String
  | [] => []
  | item :: rest => pretty level item :: prettyItems level rest

/-- Each member at a level. -/
def prettyMembers (level : Nat) : List (String × Value) → List String
  | [] => []
  | (name, value) :: rest => (quote name ++ ": " ++ pretty level value) :: prettyMembers level rest

end

end Value

end ReactiveTemplate.Json
