import ReactiveTemplate.Json.Number

/-!
# Reading JSON text

`read` turns a whole text into a value. Arrays and objects nest at most 127 deep. When an object
names a member twice, the later value stands at the earlier place.
-/

namespace ReactiveTemplate.Json

open ReactiveTemplate.Text

/-- Blanks between JSON tokens. -/
def isJsonBlank (c : Char) : Bool :=
  c == ' ' || c == '\n' || c == '\t' || c == '\r'

/-- The text from its first token on. -/
def skipBlank (cs : List Char) : List Char :=
  cs.dropWhile isJsonBlank

/-- The value of a hexadecimal digit. -/
def hexValue? (c : Char) : Option Nat :=
  if c.isDigit then some (c.toNat - '0'.toNat)
  else if 'a' ≤ c ∧ c ≤ 'f' then some (c.toNat - 'a'.toNat + 10)
  else if 'A' ≤ c ∧ c ≤ 'F' then some (c.toNat - 'A'.toNat + 10)
  else none

/-- Four hexadecimal digits as a number. -/
def readHex (cs : List Char) : Except Fault (Nat × List Char) :=
  if byteSize cs < 4 then .error (.before .endInString [])
  else
    let digits := (cs.take 4).filterMap hexValue?
    if digits.length = 4 then .ok (digits.foldl (fun n d => 16 * n + d) 0, cs.drop 4)
    else .error ⟨.invalidEscape, byteSize cs - 4⟩

/-- The second half of a pair of surrogates, given the first. -/
def readLowSurrogate (high : Nat) : List Char → Except Fault (Char × List Char)
  | [] => .error (.before .endInString [])
  | '\\' :: 'u' :: rest => do
    let (low, rest) ← readHex rest
    if 0xDC00 ≤ low ∧ low ≤ 0xDFFF then
      pure (Char.ofNat (0x10000 + (high - 0xD800) * 0x400 + (low - 0xDC00)), rest)
    else .error (.before .loneSurrogate rest)
  | ['\\'] => .error (.before .endInString [])
  | '\\' :: rest => .error (.past .incompleteEscape rest)
  | rest => .error (.past .incompleteEscape rest)

/-- An escaped character after its backslash. -/
def readEscape : List Char → Except Fault (Char × List Char)
  | [] => .error (.before .endInString [])
  | '"' :: rest => .ok ('"', rest)
  | '\\' :: rest => .ok ('\\', rest)
  | '/' :: rest => .ok ('/', rest)
  | 'b' :: rest => .ok ('\x08', rest)
  | 'f' :: rest => .ok ('\x0c', rest)
  | 'n' :: rest => .ok ('\n', rest)
  | 'r' :: rest => .ok ('\r', rest)
  | 't' :: rest => .ok ('\t', rest)
  | 'u' :: rest => do
    let (code, rest) ← readHex rest
    if 0xDC00 ≤ code ∧ code ≤ 0xDFFF then .error (.before .loneSurrogate rest)
    else if 0xD800 ≤ code ∧ code ≤ 0xDBFF then readLowSurrogate code rest
    else pure (Char.ofNat code, rest)
  | rest => .error (.past .invalidEscape rest)

/-- A string after its opening quote, the characters read so far in reverse. -/
def readString : (fuel : Nat) → List Char → List Char → Except Fault (String × List Char)
  | 0, _, cs => .error (.before .endInString cs)
  | fuel + 1, done, cs =>
    match cs with
    | [] => .error (.before .endInString [])
    | '"' :: rest => .ok (String.ofList done.reverse, rest)
    | '\\' :: rest => do
      let (c, rest) ← readEscape rest
      readString fuel (c :: done) rest
    | c :: rest =>
      if c.toNat < 32 then .error (.before .controlCharacter rest) else readString fuel (c :: done) rest

/-- The letters of a word. -/
def readWord : List Char → List Char → Except Fault (List Char)
  | [], cs => .ok cs
  | _ :: _, [] => .error (.before .endInValue [])
  | w :: word, c :: cs => if c = w then readWord word cs else .error (.past .expectedWord (c :: cs))

mutual

/-- A value, with `depth` levels of nesting left. -/
def readValue : (fuel depth : Nat) → List Char → Except Fault (Value × List Char)
  | 0, _, cs => .error (.past .tooDeep cs)
  | fuel + 1, depth, cs =>
    match skipBlank cs with
    | [] => .error (.past .endInValue [])
    | 'n' :: rest => do pure (.null, ← readWord ['u', 'l', 'l'] rest)
    | 't' :: rest => do pure (.bool true, ← readWord ['r', 'u', 'e'] rest)
    | 'f' :: rest => do pure (.bool false, ← readWord ['a', 'l', 's', 'e'] rest)
    | '"' :: rest => do
      let (text, rest) ← readString (rest.length + 1) [] rest
      pure (.string text, rest)
    | '[' :: rest =>
      if depth = 0 then .error (.past .tooDeep ('[' :: rest))
      else do
        match skipBlank rest with
        | ']' :: rest => pure (.array [], rest)
        | [] => .error (.past .endInList [])
        | rest =>
          let (items, rest) ← readItems fuel (depth - 1) rest
          pure (.array items, rest)
    | '{' :: rest =>
      if depth = 0 then .error (.past .tooDeep ('{' :: rest))
      else do
        match skipBlank rest with
        | '}' :: rest => pure (.object [], rest)
        | [] => .error (.past .endInObject [])
        | rest =>
          let (members, rest) ← readMembers fuel (depth - 1) [] rest
          pure (.object members, rest)
    | '-' :: rest => do
      let (n, rest) ← readNumber true rest
      pure (.number n, rest)
    | c :: rest =>
      if c.isDigit then do
        let (n, rest) ← readNumber false (c :: rest)
        pure (.number n, rest)
      else .error (.past .expectedValue (c :: rest))

/-- Items up to the closing bracket, at least one. -/
def readItems : (fuel depth : Nat) → List Char → Except Fault (List Value × List Char)
  | 0, _, cs => .error (.past .tooDeep cs)
  | fuel + 1, depth, cs => do
    let (item, rest) ← readValue fuel depth cs
    match skipBlank rest with
    | [] => .error (.past .endInList [])
    | ']' :: rest => pure ([item], rest)
    | ',' :: rest =>
      match skipBlank rest with
      | [] => .error (.past .endInValue [])
      | ']' :: rest => .error (.past .trailingComma (']' :: rest))
      | rest =>
        let (items, rest) ← readItems fuel depth rest
        pure (item :: items, rest)
    | rest => .error (.past .expectedListEnd rest)

/-- Members up to the closing brace, at least one, added to those read so far. -/
def readMembers : (fuel depth : Nat) → List (String × Value) → List Char →
    Except Fault (List (String × Value) × List Char)
  | 0, _, _, cs => .error (.past .tooDeep cs)
  | fuel + 1, depth, done, cs =>
    match cs with
    | '"' :: rest => do
      let (name, rest) ← readString (rest.length + 1) [] rest
      match skipBlank rest with
      | [] => .error (.past .endInObject [])
      | ':' :: rest =>
        let (value, rest) ← readValue fuel depth rest
        let done := Dictionary.put name value done
        match skipBlank rest with
        | [] => .error (.past .endInObject [])
        | '}' :: rest => pure (done, rest)
        | ',' :: rest =>
          match skipBlank rest with
          | [] => .error (.past .endInValue [])
          | '}' :: rest => .error (.past .trailingComma ('}' :: rest))
          | rest => readMembers fuel depth done rest
        | rest => .error (.past .expectedObjectEnd rest)
      | rest => .error (.past .expectedColon rest)
    | _ => .error (.past .keyNotString cs)

end

/-- A whole text as one value. -/
def read (text : String) : Except Fault Value := do
  let cs := text.toList
  let (value, rest) ← readValue (2 * cs.length + 2) 127 cs
  match skipBlank rest with
  | [] => pure value
  | rest => .error (.past .trailingCharacters rest)

end ReactiveTemplate.Json
