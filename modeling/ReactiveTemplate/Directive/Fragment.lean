import ReactiveTemplate.Text.Cursor

/-!
# Expressions inside directives

The value of a directive holds expressions between separators. `Fragment.cut?` takes the text up to
the first separator that lies outside quotes and parentheses, and keeps its place, so that errors of
the expression can point into the directive.
-/

namespace ReactiveTemplate.Directive

open ReactiveTemplate.Text

/-- A text without blanks around it, and its place in a larger one. -/
structure Fragment where
  text : String
  span : Span
  deriving DecidableEq, Repr

namespace Fragment

/-- The fragment of characters that begin at `start`, blanks around them left out. -/
def ofChars (start : Nat) (cs : List Char) : Fragment :=
  let inner := trim cs
  ⟨String.ofList inner, .covering (start + byteSize (cs.takeWhile isBlank)) inner⟩

/-- The quotes, which hold any text up to the next quote of the same kind. -/
def isQuote (c : Char) : Bool :=
  c == '\'' || c == '"'

/-- How many characters there are up to the parenthesis that closes `depth + 1` open ones, that one
included. Parentheses inside quotes count for nothing; `quote` is the one that is open. -/
def groupLength? (depth : Nat) (quote : Option Char) : List Char → Option Nat
  | [] => none
  | c :: cs =>
    (match quote with
      | some q => groupLength? depth (if c = q then none else some q) cs
      | none =>
        if isQuote c then groupLength? depth (some c) cs
        else if c = '(' then groupLength? (depth + 1) none cs
        else if c = ')' then
          match depth with
          | 0 => some 0
          | outer + 1 => groupLength? outer none cs
        else groupLength? depth none cs).map (· + 1)

/-- How many characters of `c :: cs` belong together at the front: a quoted text, a parenthesis with
all it holds, or one character. Nothing does at a separator, at a parenthesis that closes, and at a
quote or parenthesis that is never closed. -/
def unitLength? (stop : Char → Bool) (c : Char) (cs : List Char) : Option Nat :=
  if isQuote c then (cs.idxOf? c).map (· + 2)
  else if c = '(' then (groupLength? 0 none cs).map (· + 1)
  else if c = ')' ∨ stop c then none
  else some 1

/-- How many characters an expression has that ends at the first separator. -/
def lengthUpTo (stop : Char → Bool) (text : List Char) : Nat :=
  match text with
  | [] => 0
  | c :: cs =>
    match unitLength? stop c cs with
    | none => 0
    | some n => n + lengthUpTo stop (cs.drop (n - 1))
termination_by text.length
decreasing_by
  simp only [List.length_drop, List.length_cons]
  omega

/-- The expression at a cursor up to the first separator. It must not be blank. -/
def cut? (stop : Char → Bool) (c : Cursor) : Option (Fragment × Cursor) :=
  let n := lengthUpTo stop c.rest
  let taken := c.rest.take n
  if taken.all isBlank then none else some (ofChars c.offset taken, c.advance n)

end Fragment

/-- Characters of the names of loop variables, fields and methods. -/
def isNameChar (c : Char) : Bool :=
  c.isAlphanum || c == '_' || c == '$'

/-- A name at a cursor. -/
def name? (c : Cursor) : Option (String × Cursor) :=
  (c.run? isNameChar).map fun (cs, behind) => (String.ofList cs, behind)

end ReactiveTemplate.Directive
