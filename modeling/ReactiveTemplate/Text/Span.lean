/-!
# Spans of text

Places in a text are counted in bytes of its UTF-8 form. A `Span` runs from one place up to
another, the end left out.
-/

namespace ReactiveTemplate.Text

/-- The number of bytes that characters take in UTF-8. -/
def byteSize : List Char → Nat
  | [] => 0
  | c :: cs => c.utf8Size + byteSize cs

@[simp]
theorem byteSize_nil : byteSize [] = 0 := rfl

@[simp]
theorem byteSize_cons (c : Char) (cs : List Char) : byteSize (c :: cs) = c.utf8Size + byteSize cs := rfl

@[simp]
theorem byteSize_append (cs ds : List Char) : byteSize (cs ++ ds) = byteSize cs + byteSize ds := by
  induction cs with
  | nil => rw [List.nil_append, byteSize_nil, Nat.zero_add]
  | cons c cs ih => rw [List.cons_append, byteSize_cons, byteSize_cons, ih, Nat.add_assoc]

/-- The bytes of a text from `start` up to `stop`. -/
structure Span where
  start : Nat
  stop : Nat
  deriving DecidableEq, Repr, Inhabited

namespace Span

/-- The span of a whole text. -/
def whole (text : String) : Span :=
  ⟨0, byteSize text.toList⟩

/-- The span of characters that begin at `start`. -/
def covering (start : Nat) (cs : List Char) : Span :=
  ⟨start, start + byteSize cs⟩

/-- The same span in a text that puts `offset` bytes in front. -/
def shift (offset : Nat) (s : Span) : Span :=
  ⟨s.start + offset, s.stop + offset⟩

/-- From the start of one span to the end of another. -/
def through (first last : Span) : Span :=
  ⟨first.start, last.stop⟩

end Span

end ReactiveTemplate.Text
