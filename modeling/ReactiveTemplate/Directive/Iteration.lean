import ReactiveTemplate.Directive.Fragment
import ReactiveTemplate.CompileError

/-!
# Headers of iterations

A header names the variable for the item and, after a comma, one for its index or key, with or
without parentheses around both. After the word `in` the rest is the expression to iterate over.
-/

namespace ReactiveTemplate.Directive

open ReactiveTemplate.Text

/-- The variables of an iteration and the expression it runs over. -/
structure IterationHeader where
  item : String
  index : Option String
  source : Fragment
  deriving DecidableEq, Repr

namespace IterationHeader

/-- One name, or two with a comma between them. -/
def names? (c : Cursor) : Option ((String × Option String) × Cursor) := do
  let (item, c) ← name? c
  let second := do
    let next ← c.skipBlank.past? ','
    name? next.skipBlank
  match second with
  | some (index, c) => pure ((item, some index), c)
  | none => pure ((item, none), c)

/-- Names in parentheses. -/
def grouped? (c : Cursor) : Option ((String × Option String) × Cursor) := do
  let c ← c.past? '('
  let (names, c) ← names? c.skipBlank
  pure (names, ← c.skipBlank.past? ')')

/-- A whole text as a header. -/
def ofText? (text : String) : Option IterationHeader := do
  let c := (Cursor.start text).skipBlank
  let ((item, index), c) ← (grouped? c).or (names? c)
  let c ← c.skipBlank.past? 'i'
  let c ← c.past? 'n'
  let (_, c) ← c.run? isBlank
  if c.atEnd then none else some ⟨item, index, .ofChars c.offset c.rest⟩

end IterationHeader

/-- A text as the header of an iteration. -/
def readIteration (text : String) : Except CompileError IterationHeader :=
  match IterationHeader.ofText? text with
  | some header => .ok header
  | none => .error ⟨.malformedIteration, text, .whole text⟩

end ReactiveTemplate.Directive
