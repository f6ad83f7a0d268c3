import ReactiveTemplate.CompileError
import ReactiveTemplate.Text.Blank

/-!
# Tokens of expressions

A source is cut into runs of value characters, runs of operator characters, quoted texts without
escapes, and single parentheses; blanks separate. Runs are as long as possible, so the tokens are
determined by the source alone.
-/

namespace ReactiveTemplate.Expression

open ReactiveTemplate.Text

/-- What a token may be, judged by its first character. -/
inductive Token.Kind where
  | value
  | operator
  | string
  | mark
  deriving DecidableEq, Repr

/-- A piece of a source with its place. -/
structure Token where
  kind : Token.Kind
  text : String
  span : Span
  deriving DecidableEq, Repr

/-- Characters of literals and variable paths. -/
def isValueChar (c : Char) : Bool :=
  c.isAlphanum || c == '.' || c == '_' || c == '[' || c == ']'

/-- Characters of operators. -/
def isOperatorChar (c : Char) : Bool :=
  c == '-' || c == '+' || c == '<' || c == '=' || c == '>' || c == '&' || c == '|' || c == '!'

/-- The parentheses. -/
def isMark (c : Char) : Bool :=
  c == '(' || c == ')'

/-- The two quotes. A text runs to the next quote of the same kind. -/
def isQuote (c : Char) : Bool :=
  c == '"' || c == '\''

/-- What a source begins with: a token of some kind, a blank, or a fault. -/
inductive Piece where
  | token (kind : Token.Kind) (text rest : List Char)
  | blank (character : Char) (rest : List Char)
  | fault (fault : CompileFault) (text : List Char)

/-- The first piece of the source `c :: cs`. -/
def Piece.first (c : Char) (cs : List Char) : Piece :=
  if isMark c then .token .mark [c] cs
  else if isQuote c then
    match cs.dropWhile (· ≠ c) with
    | [] => .fault .unterminatedString (c :: cs)
    | _ :: rest => .token .string (c :: cs.takeWhile (· ≠ c) ++ [c]) rest
  else if isValueChar c then .token .value (c :: cs.takeWhile isValueChar) (cs.dropWhile isValueChar)
  else if isOperatorChar c then
    .token .operator (c :: cs.takeWhile isOperatorChar) (cs.dropWhile isOperatorChar)
  else if isBlank c then .blank c cs
  else .fault (.unexpectedCharacter c) [c]

theorem Piece.first_token_length {c : Char} {cs text rest : List Char} {kind : Token.Kind}
    (h : Piece.first c cs = .token kind text rest) : rest.length < (c :: cs).length := by
  have drop (p : Char → Bool) : (cs.dropWhile p).length ≤ cs.length :=
    (List.dropWhile_sublist p).length_le
  rw [List.length_cons]
  unfold Piece.first at h
  split at h
  · rw [← (Piece.token.inj h).2.2]
    omega
  · split at h
    · split at h
      · cases h
      · rename_i d more hmore
        have hdrop := drop (· ≠ c)
        rw [hmore, List.length_cons] at hdrop
        rw [← (Piece.token.inj h).2.2]
        omega
    · split at h
      · rw [← (Piece.token.inj h).2.2]
        exact Nat.lt_succ_of_le (drop isValueChar)
      · split at h
        · rw [← (Piece.token.inj h).2.2]
          exact Nat.lt_succ_of_le (drop isOperatorChar)
        · split at h <;> cases h

theorem Piece.first_blank_length {c d : Char} {cs rest : List Char}
    (h : Piece.first c cs = .blank d rest) : rest.length < (c :: cs).length := by
  unfold Piece.first at h
  repeat' split at h
  all_goals cases h
  exact Nat.lt_succ_self _

/-- The tokens of characters that begin at `start`. -/
def Token.scan (start : Nat) (source : List Char) : Except Located (List Token) :=
  match source with
  | [] => .ok []
  | c :: cs =>
    match h : Piece.first c cs with
    | .token kind text rest => do
      have := Piece.first_token_length h
      let tokens ← Token.scan (start + byteSize text) rest
      pure (⟨kind, String.ofList text, .covering start text⟩ :: tokens)
    | .blank d rest =>
      have := Piece.first_blank_length h
      Token.scan (start + d.utf8Size) rest
    | .fault fault text => .error ⟨fault, .covering start text⟩
termination_by source.length
decreasing_by
  all_goals assumption

/-- The tokens of a source. -/
def tokenize (source : String) : Except CompileError (List Token) :=
  (Token.scan 0 source.toList).mapError (·.inText source)

end ReactiveTemplate.Expression
