import Mathlib
import ReactiveTemplate.Proofs.Expression.Lexing
import ReactiveTemplate.Proofs.Template.Caching

/-!
# Where expressions end inside directives

A text is closed if its quotes and parentheses are, and if no separator stands outside them. A closed
text is taken whole when an expression is cut at a separator. Every source of an expression is closed,
since the tokenizer ends quoted texts where the directive grammar does and a derivation pairs all
parentheses.
-/

namespace ReactiveTemplate.Directive

open ReactiveTemplate.Text

/-- Characters that neither quote nor group nor separate in any directive. -/
def isOrdinary (c : Char) : Bool :=
  !(Fragment.isQuote c || c == '(' || c == ')' || c == ',' || c == ';' || c == '}')

/-- Characters with all quotes and parentheses closed, and with no separator outside them. -/
inductive Closed : List Char → Prop where
  | nil : Closed []
  | ordinary {c : Char} (h : isOrdinary c = true) : Closed [c]
  | quoted {quote : Char} (hq : Fragment.isQuote quote = true) {content : List Char} (h : quote ∉ content) :
      Closed (quote :: content ++ [quote])
  | group {inner : List Char} (h : Closed inner) : Closed ('(' :: inner ++ [')'])
  | append {cs ds : List Char} (h : Closed cs) (h' : Closed ds) : Closed (cs ++ ds)

/-- A class of characters at which a directive ends an expression. -/
def Separates (stop : Char → Bool) : Prop :=
  ∀ c, stop c = true → c = ',' ∨ c = ';' ∨ c = '}'

/-- An expression ends here: the text does, or goes on with a separator or a parenthesis that closes. -/
def AtStop (stop : Char → Bool) (rest : List Char) : Prop :=
  ∀ c ∈ rest.head?, c = ')' ∨ stop c = true

/-- An expression ends at such a character. -/
theorem atStop_cons {stop : Char → Bool} {c : Char} (h : c = ')' ∨ stop c = true) (rest : List Char) :
    AtStop stop (c :: rest) := by
  intro d hd
  rw [List.head?_cons, Option.mem_some_iff] at hd
  exact hd ▸ h

/-! ### Scanning -/

namespace Fragment

/-- A quoted text is passed up to its quote. -/
theorem groupLength?_quoted (depth : Nat) {quote : Char} {content : List Char} (h : quote ∉ content)
    (rest : List Char) : groupLength? depth (some quote) (content ++ quote :: rest) =
      (groupLength? depth none rest).map (· + (content.length + 1)) := by
  induction content with
  | nil => simp [groupLength?]
  | cons c content ih =>
    rw [List.mem_cons, not_or] at h
    obtain ⟨hc, hcontent⟩ := h
    rw [List.cons_append, groupLength?]
    simp only [Ne.symm hc, if_false, ih hcontent, Option.map_map]
    rfl

/-- Characters of no meaning are passed one by one. -/
theorem groupLength?_ordinary (depth : Nat) {c : Char} (h : isOrdinary c = true) (rest : List Char) :
    groupLength? depth none (c :: rest) = (groupLength? depth none rest).map (· + 1) := by
  simp only [isOrdinary, Bool.not_eq_true', Bool.or_eq_false_iff, beq_eq_false_iff_ne] at h
  obtain ⟨⟨⟨⟨⟨hquote, hopening⟩, hclosing⟩, _⟩, _⟩, _⟩ := h
  simp only [groupLength?, hquote, hopening, hclosing, if_false, Bool.false_eq_true]

end Fragment

namespace Closed

variable {cs : List Char}

open Fragment

/-- A closed text is passed at any depth. -/
theorem groupLength?_append (h : Closed cs) (depth : Nat) (rest : List Char) :
    groupLength? depth none (cs ++ rest) = (groupLength? depth none rest).map (· + cs.length) := by
  induction h generalizing depth rest with
  | nil => simp
  | ordinary hc => exact groupLength?_ordinary depth hc rest
  | @quoted quote hq content hcontent =>
    have hcontent := groupLength?_quoted depth hcontent rest
    rw [List.cons_append, List.cons_append, List.append_assoc, List.singleton_append]
    simp only [groupLength?, hq, if_true, hcontent, Option.map_map]
    congr 1
    funext n
    simp only [Function.comp_apply, List.length_cons, List.length_append, List.length_nil]
    omega
  | @group inner _ ih =>
    have hclosing : groupLength? (depth + 1) none (')' :: rest) = (groupLength? depth none rest).map (· + 1) :=
      rfl
    have hopening (tail : List Char) :
        groupLength? depth none ('(' :: tail) = (groupLength? (depth + 1) none tail).map (· + 1) :=
      rfl
    rw [List.cons_append, List.cons_append, List.append_assoc, List.singleton_append, hopening, ih, hclosing,
      Option.map_map, Option.map_map]
    congr 1
    funext n
    simp only [Function.comp_apply, List.length_cons, List.length_append, List.length_nil]
    omega
  | append _ _ ih ih' =>
    rw [List.append_assoc, ih, ih', Option.map_map]
    congr 1
    funext n
    simp only [Function.comp_apply, List.length_append]
    omega

/-- The unit of a quoted text. -/
theorem unitLength?_quoted (stop : Char → Bool) {quote : Char} (hq : isQuote quote = true)
    {content : List Char} (h : quote ∉ content) (rest : List Char) :
    unitLength? stop quote (content ++ quote :: rest) = some (content.length + 2) := by
  rw [unitLength?, if_pos hq, idxOf?_append_cons h]
  rfl

/-- The unit of a closed text in parentheses. -/
theorem unitLength?_group (stop : Char → Bool) (h : Closed cs) (rest : List Char) :
    unitLength? stop '(' (cs ++ ')' :: rest) = some (cs.length + 2) := by
  have hclosing : groupLength? 0 none (')' :: rest) = some 1 := rfl
  rw [unitLength?, if_neg (by decide), if_pos rfl, h.groupLength?_append, hclosing, Option.map_some,
    Option.map_some, Nat.add_comm 1]

/-- A character of no meaning is a unit. -/
theorem unitLength?_ordinary {stop : Char → Bool} (hstop : Separates stop) {c : Char}
    (h : isOrdinary c = true) (rest : List Char) : unitLength? stop c rest = some 1 := by
  have hc : stop c = false := by
    refine Bool.eq_false_iff.mpr fun hc => ?_
    rcases hstop c hc with rfl | rfl | rfl <;> exact absurd h (by decide)
  simp only [isOrdinary, Bool.not_eq_true', Bool.or_eq_false_iff, beq_eq_false_iff_ne] at h
  obtain ⟨⟨⟨⟨⟨hquote, hopening⟩, hclosing⟩, _⟩, _⟩, _⟩ := h
  simp only [unitLength?, hquote, hopening, hclosing, hc, if_false, Bool.false_eq_true, or_self]

/-- What follows a unit is scanned next. -/
theorem lengthUpTo_of_unitLength? {stop : Char → Bool} {c : Char} (unit : List Char) {rest : List Char}
    (h : unitLength? stop c (unit ++ rest) = some (unit.length + 1)) :
    lengthUpTo stop (c :: (unit ++ rest)) = unit.length + 1 + lengthUpTo stop rest := by
  rw [lengthUpTo, h]
  simp

/-- A closed text is passed when a separator is looked for. -/
theorem lengthUpTo_append {stop : Char → Bool} (hstop : Separates stop) (h : Closed cs) (rest : List Char) :
    lengthUpTo stop (cs ++ rest) = cs.length + lengthUpTo stop rest := by
  induction h generalizing rest with
  | nil => simp
  | @ordinary c hc =>
    exact lengthUpTo_of_unitLength? [] (unitLength?_ordinary hstop hc rest)
  | @quoted quote hq content hcontent =>
    have hunit := lengthUpTo_of_unitLength? (content ++ [quote])
      (by simpa using unitLength?_quoted stop hq hcontent rest)
    simpa using hunit
  | @group inner hinner _ =>
    have hunit := lengthUpTo_of_unitLength? (inner ++ [')'])
      (by simpa using unitLength?_group stop hinner rest)
    simpa using hunit
  | append _ _ ih ih' => rw [List.append_assoc, ih, ih', List.length_append, Nat.add_assoc]

end Closed

section Stops

variable {stop : Char → Bool} {rest : List Char}

/-- Nothing is passed at a stop. -/
theorem AtStop.lengthUpTo_eq (h : AtStop stop rest) (hstop : Separates stop) :
    Fragment.lengthUpTo stop rest = 0 := by
  cases rest with
  | nil => rw [Fragment.lengthUpTo]
  | cons c rest =>
    have hunit : Fragment.unitLength? stop c rest = none := by
      rcases h c rfl with rfl | hc
      · rfl
      · rcases hstop c hc with rfl | rfl | rfl <;> simp [Fragment.unitLength?, Fragment.isQuote, hc]
    rw [Fragment.lengthUpTo, hunit]

/-- There is no expression at a stop. -/
theorem AtStop.cut?_eq_none (h : AtStop stop rest) (hstop : Separates stop) (offset : Nat) :
    Fragment.cut? stop ⟨offset, rest⟩ = none := by
  simp only [Fragment.cut?, h.lengthUpTo_eq hstop]
  rfl

/-- An expression with a closed text is cut out whole. -/
theorem Closed.cut?_append {cs : List Char} (h : Closed cs) (hstop : Separates stop)
    (hsome : ∃ c ∈ cs, isBlank c = false) (hrest : AtStop stop rest) (offset : Nat) :
    Fragment.cut? stop ⟨offset, cs ++ rest⟩ = some (.ofChars offset cs, ⟨offset + byteSize cs, rest⟩) := by
  have hall : ¬cs.all isBlank = true := by
    obtain ⟨c, hc, hblank⟩ := hsome
    rw [List.all_eq_true]
    intro hall
    rw [hall c hc] at hblank
    contradiction
  have hlength : Fragment.lengthUpTo stop (cs ++ rest) = cs.length := by
    rw [h.lengthUpTo_append hstop, hrest.lengthUpTo_eq hstop, Nat.add_zero]
  simp only [Fragment.cut?, hlength, List.take_left, hall, Cursor.advance, List.drop_left]
  rfl

end Stops

/-! ### Places -/

/-- A fragment is a part of a text, and its span is the place of that part. -/
def Fragment.LiesIn (whole : String) (f : Fragment) : Prop :=
  ∃ before behind, whole.toList = before ++ f.text.toList ++ behind ∧
    f.span = .covering (byteSize before) f.text.toList

/-- What is trimmed lies where it was. -/
theorem Fragment.liesIn_ofChars {whole : String} {before cs behind : List Char}
    (h : whole.toList = before ++ cs ++ behind) : (ofChars (byteSize before) cs).LiesIn whole := by
  obtain ⟨blanks, _, hcs⟩ := exists_blanks_of_trim cs
  refine ⟨before ++ cs.takeWhile isBlank, blanks ++ behind, ?_, ?_⟩
  · rw [h, ofChars, String.toList_ofList]
    conv_lhs => rw [hcs]
    simp only [List.append_assoc]
  · simp only [ofChars, String.toList_ofList, byteSize_append]

/-- A text that is not blank is trimmed in the same way with blanks around it. -/
theorem Fragment.ofChars_padded {before cs behind : List Char} (hbefore : ∀ c ∈ before, isBlank c = true)
    (hsome : ∃ c ∈ cs, isBlank c = false) (hbehind : ∀ c ∈ behind, isBlank c = true) (start : Nat) :
    ofChars start (before ++ cs ++ behind) = ofChars (start + byteSize before) cs := by
  have htrim : trim (before ++ cs ++ behind) = trim cs := by
    rw [trim_append_blanks hbehind, trim_blanks_append hbefore]
  have hfront : (before ++ cs ++ behind).takeWhile isBlank = before ++ cs.takeWhile isBlank := by
    rw [List.append_assoc, List.takeWhile_append_of_pos hbefore, takeWhile_isBlank_append hsome]
  simp only [ofChars, htrim, hfront, byteSize_append, Nat.add_assoc]

/-! ### Sources of expressions -/

open Expression

/-- Both grammars have the same quotes. -/
theorem isQuote_eq (c : Char) : Fragment.isQuote c = isQuote c :=
  Bool.or_comm _ _

/-- The characters of runs and blanks have no meaning to directives. -/
theorem isOrdinary_of_class {c : Char}
    (h : isValueChar c = true ∨ isOperatorChar c = true ∨ isBlank c = true) : isOrdinary c = true := by
  by_contra hother
  simp only [isOrdinary, isQuote_eq, Bool.not_eq_true, Bool.not_eq_false', Bool.or_eq_true, beq_iff_eq] at hother
  rcases hother with ((((hquote | rfl) | rfl) | rfl) | rfl) | rfl
  · obtain ⟨_, hvalue, hoperator, hblank⟩ := not_class_of_isQuote hquote
    simp [hvalue, hoperator, hblank] at h
  all_goals revert h; decide

namespace Closed

variable {cs : List Char}

/-- Characters of no meaning are closed. -/
theorem of_ordinary (h : ∀ c ∈ cs, isOrdinary c = true) : Closed cs := by
  induction cs with
  | nil => exact .nil
  | cons c cs ih =>
    obtain ⟨hc, hcs⟩ := List.forall_mem_cons.mp h
    exact (ordinary hc).append (ih hcs)

/-- Blanks are closed. -/
theorem of_blanks (h : ∀ c ∈ cs, isBlank c = true) : Closed cs :=
  of_ordinary fun c hc => isOrdinary_of_class (Or.inr (Or.inr (h c hc)))

/-- A token is closed if it is no parenthesis. -/
theorem of_lexeme {kind : Token.Kind} (h : Token.Lexeme kind cs) (hkind : kind ≠ .mark) : Closed cs := by
  cases h with
  | mark => contradiction
  | string hq hcontent => exact .quoted (by rwa [isQuote_eq]) hcontent
  | value _ hchars => exact of_ordinary fun c hc => isOrdinary_of_class (Or.inl (hchars c hc))
  | operator _ hchars => exact of_ordinary fun c hc => isOrdinary_of_class (Or.inr (Or.inl (hchars c hc)))

/-- A source whose tokens derive from the grammar is closed. -/
theorem of_derives {symbol : Nonterminal} {tokens : List Token} {phrase : Phrase}
    (h : Derives symbol tokens phrase) {start : Nat} (hlexes : Lexes start cs tokens) : Closed cs := by
  induction h generalizing start cs with
  | @word t ht =>
    obtain ⟨blanks, rest, hblanks, hlexeme, rfl, hrest⟩ := hlexes.first
    have hkind : t.kind ≠ .mark := by rcases ht with ht | ht <;> simp [ht]
    exact ((of_blanks hblanks).append (of_lexeme hlexeme hkind)).append (of_blanks hrest.blanks_of_nil)
  | @group opening closing tokens phrase ho _ hc ih =>
    obtain ⟨blanks, rest, hblanks, _, rfl, hrest⟩ := hlexes.first
    obtain ⟨inner, last, rfl, hinner, hlast⟩ := hrest.split
    obtain ⟨before, behind, hbefore, _, rfl, hbehind⟩ := hlast.first
    rw [ho.2, hc.2]
    have hgroup := group ((ih hinner).append (of_blanks hbefore))
    have hall := ((of_blanks hblanks).append hgroup).append (of_blanks hbehind.blanks_of_nil)
    simpa using hall
  | @not t tokens phrase ht _ ih =>
    obtain ⟨blanks, rest, hblanks, hlexeme, rfl, hrest⟩ := hlexes.first
    exact ((of_blanks hblanks).append (of_lexeme hlexeme (by simp [ht.1]))).append (ih hrest)
  | operand _ ih => exact ih hlexes
  | binary _ ht _ ihl ihr =>
    obtain ⟨before, behind, rfl, hbefore, hbehind⟩ := hlexes.split
    obtain ⟨blanks, rest, hblanks, hlexeme, rfl, hrest⟩ := hbehind.first
    have hoperator := (of_blanks hblanks).append (of_lexeme hlexeme (by simp [ht.1]))
    exact (ihl hbefore).append (hoperator.append (ihr hrest))

end Closed

/-- Blanks do not start with an equals sign. -/
theorem ends_equals_of_blanks {blanks : List Char} (h : ∀ c ∈ blanks, isBlank c = true) :
    Ends (· == '=') blanks := by
  intro c hc
  have hblank := h c (List.mem_of_mem_head? hc)
  rw [beq_eq_false_iff_ne]
  rintro rfl
  contradiction

/-- What an expression is compiled from. -/
structure Source where
  text : String
  compiles : ∃ e, compile text = .ok e

namespace Source

/-- A source without the blanks around it, in a text where it begins at `start`. -/
def fragment (source : Source) (start : Nat) : Fragment :=
  .ofChars start source.text.toList

/-- The tokens of a source derive from the grammar. -/
theorem exists_derives (source : Source) :
    ∃ tokens phrase, Lexes 0 source.text.toList tokens ∧ Derives .sentence tokens phrase := by
  obtain ⟨e, he⟩ := source.compiles
  rw [source_of_compile he, compile_eq_ok_iff_lexes 0] at he
  obtain ⟨tokens, hlexes, phrase, hderives, _⟩ := he
  exact ⟨tokens, phrase, hlexes, hderives⟩

/-- A source is closed. -/
theorem closed (source : Source) : Closed source.text.toList := by
  obtain ⟨tokens, phrase, hlexes, hderives⟩ := source.exists_derives
  exact .of_derives hderives hlexes

/-- A source starts with blanks and a character that is neither blank nor an equals sign. -/
theorem exists_first (source : Source) : ∃ blanks c rest, (∀ d ∈ blanks, isBlank d = true) ∧
    isBlank c = false ∧ c ≠ '=' ∧ source.text.toList = blanks ++ c :: rest := by
  obtain ⟨e, he⟩ := source.compiles
  obtain ⟨blanks, c, rest, hblanks, hblank, hoperator, hchars⟩ := exists_first_of_compile he
  refine ⟨blanks, c, rest, hblanks, hblank, ?_, hchars⟩
  rintro rfl
  exact absurd (hoperator rfl) (by decide)

/-- A source is not blank. -/
theorem not_blank (source : Source) : ∃ c ∈ source.text.toList, isBlank c = false := by
  obtain ⟨blanks, c, rest, _, hc, _, hchars⟩ := source.exists_first
  exact ⟨c, by simp [hchars], hc⟩

/-- A source does not start with an equals sign. -/
theorem no_equals (source : Source) : Ends (· == '=') source.text.toList := by
  obtain ⟨blanks, c, rest, hblanks, _, hc, hchars⟩ := source.exists_first
  rw [hchars]
  have hequals : Ends (· == '=') (c :: rest) := ends_cons (p := (· == '=')) (by simpa using hc) rest
  exact (ends_equals_of_blanks hblanks).append hequals

/-- A source is compiled in any text to what it is compiled to when it is trimmed. -/
theorem compileFragment_fragment (source : Source) : ∃ e, compile (trimmed source.text) = .ok e ∧
    ∀ whole start, compileFragment whole (source.fragment start) = .ok e := by
  obtain ⟨e, he⟩ := source.compiles
  have htrimmed := compile_trimmed he
  refine ⟨_, htrimmed, fun whole start => ?_⟩
  change Except.mapError _ (compile (trimmed source.text)) = _
  rw [htrimmed]
  rfl

/-- The name of the event is no source, with or without blanks around it. -/
theorem trimmed_ne_eventName (source : Source) : trimmed source.text ≠ eventName := by
  intro heq
  obtain ⟨e, he, _⟩ := source.compileFragment_fragment
  obtain ⟨_, tokens, htokens, _⟩ := compile_eq_ok_iff.mp he
  rw [heq, tokenize_eq_ok_iff, ← scan_eq_ok_iff] at htokens
  have hfirst : Piece.first '$' "event".toList = .fault (.unexpectedCharacter '$') ['$'] := rfl
  have hchars : eventName.toList = '$' :: "event".toList := rfl
  rw [hchars, Token.scan_of_fault hfirst] at htokens
  cases htokens

/-- A quoted text with blanks around it is a source. -/
def quoted (before : List Char) (quote : Char) (content behind : List Char)
    (hbefore : ∀ c ∈ before, isBlank c = true) (hq : isQuote quote = true) (h : quote ∉ content)
    (hbehind : ∀ c ∈ behind, isBlank c = true) : Source where
  text := String.ofList (before ++ (quote :: content ++ [quote]) ++ behind)
  compiles := by
    have hrun {c : Char} (hc : isQuote c = true ∨ isBlank c = true) : isRunChar c = false := by
      rcases hc with hc | hc
      · simp [isRunChar, not_class_of_isQuote hc]
      · simp [isRunChar, not_class_of_isBlank hc]
    have hquoted := (lexes_blanks hbefore 0).append (ends_cons (hrun (Or.inl hq)) _)
      (lexes_lexeme (.string hq h) _)
    have hall := hquoted.append (fun c hc => hrun (Or.inr (hbehind c (List.mem_of_mem_head? hc))))
      (lexes_blanks hbehind _)
    rw [List.nil_append, List.append_nil, ← String.toList_ofList (l := _ ++ behind)] at hall
    exact ⟨_, (compile_eq_ok_iff_lexes 0).mpr ⟨_, hall, (Spells.word (Or.inr rfl) rfl).operand⟩⟩

end Source

end ReactiveTemplate.Directive
