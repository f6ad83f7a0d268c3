import ReactiveTemplate.Directive.Fragment
import ReactiveTemplate.CompileError

/-!
# Mapping literals

A mapping is a list of keys with expressions between braces. Keys are bare or quoted, and a comma may
follow the last entry.
-/

namespace ReactiveTemplate.Directive

open ReactiveTemplate.Text

namespace Mapping

/-- Characters that a key cannot hold unless it is quoted. -/
def endsBareKey (c : Char) : Bool :=
  c == ' ' || c == '\t' || c == '\r' || c == '\n' || c == ':' || c == ',' || c == '\'' || c == '"' ||
    c == '{' || c == '}'

/-- The text in quotes at a cursor. -/
def quoted? (c : Cursor) : Option (String × Cursor) :=
  match c.rest with
  | [] => none
  | quote :: cs =>
    if Fragment.isQuote quote then
      (cs.idxOf? quote).map fun n => (String.ofList (cs.take n), c.advance (n + 2))
    else none

/-- A key at a cursor. -/
def key? (c : Cursor) : Option (String × Cursor) :=
  (quoted? c).or ((c.run? (!endsBareKey ·)).map fun (cs, behind) => (String.ofList cs, behind))

/-- A key and its expression, which ends at a comma or a closing brace. -/
def entry? (c : Cursor) : Option ((String × Fragment) × Cursor) := do
  let (key, c) ← key? c.skipBlank
  let c ← c.skipBlank.past? ':'
  let (value, c) ← Fragment.cut? (fun d => d == ',' || d == '}') c
  pure ((key, value), c)

/-- The entries of a whole text. -/
def entries? (text : String) : Option (List (String × Fragment)) := do
  let c ← (Cursor.start text).skipBlank.past? '{'
  let (entries, c) := Cursor.separated entry? ',' true c
  let c ← c.skipBlank.past? '}'
  if c.skipBlank.atEnd then some entries else none

end Mapping

/-- A text as a mapping. -/
def readMapping (text : String) : Except CompileError (List (String × Fragment)) :=
  match Mapping.entries? text with
  | some entries => .ok entries
  | none => .error ⟨.malformedMapping, text, .whole text⟩

end ReactiveTemplate.Directive
