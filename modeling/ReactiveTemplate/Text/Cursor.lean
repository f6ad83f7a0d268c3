import ReactiveTemplate.Text.Span
import ReactiveTemplate.Text.Blank

/-!
# Places in a text

A `Cursor` is what is left of a text with the number of bytes before it. The grammars of directives
are functions from a cursor to what they read and the cursor behind it.
-/

namespace ReactiveTemplate.Text

/-- The rest of a text, and the bytes before it. -/
structure Cursor where
  offset : Nat
  rest : List Char
  deriving DecidableEq, Repr

namespace Cursor

/-- The start of a text. -/
def start (text : String) : Cursor :=
  ⟨0, text.toList⟩

/-- The cursor some characters on. -/
def advance (c : Cursor) (characters : Nat) : Cursor :=
  ⟨c.offset + byteSize (c.rest.take characters), c.rest.drop characters⟩

/-- The leading characters of a class. -/
def leading (c : Cursor) (p : Char → Bool) : List Char :=
  c.rest.takeWhile p

/-- The cursor behind the leading characters of a class. -/
def skip (c : Cursor) (p : Char → Bool) : Cursor :=
  c.advance (c.leading p).length

/-- The cursor behind blanks. -/
def skipBlank (c : Cursor) : Cursor :=
  c.skip isBlank

/-- The cursor behind the next character, which has to be `expected`. -/
def past? (c : Cursor) (expected : Char) : Option Cursor :=
  match c.rest with
  | next :: _ => if next = expected then some (c.advance 1) else none
  | [] => none

/-- One or more characters of a class, and the cursor behind them. -/
def run? (c : Cursor) (p : Char → Bool) : Option (List Char × Cursor) :=
  match c.leading p with
  | [] => none
  | cs => some (cs, c.skip p)

/-- Whether the text ends here. -/
def atEnd (c : Cursor) : Bool :=
  c.rest.isEmpty

section Separated

variable {α : Type} (item : Cursor → Option (α × Cursor)) (separator : Char) (trailing : Bool)

/-- Items that each follow a separator, at most `fuel` of them. A separator with no item behind it is
left unread unless it may trail. -/
def moreItems : (fuel : Nat) → Cursor → List α × Cursor
  | 0, c => ([], c)
  | fuel + 1, c =>
    match c.past? separator with
    | none => ([], c)
    | some next =>
      match item next with
      | none => ([], if trailing then next else c)
      | some (a, behind) =>
        let (items, last) := moreItems fuel behind
        (a :: items, last)

/-- Items with separators between them, as many as there are. -/
def separated (c : Cursor) : List α × Cursor :=
  match item c with
  | none => ([], c)
  | some (a, behind) =>
    let (items, last) := moreItems item separator trailing behind.rest.length behind
    (a :: items, last)

end Separated

end Cursor

end ReactiveTemplate.Text
