import Mathlib
import ReactiveTemplate.Proofs.Expression.Printing
import ReactiveTemplate.Proofs.Json.Numerals

/-!
# Literals

The texts of null, truth values and numbers are expressions that mean these values, as long as no sign stands in
them. Signs are operators, and no run of value characters has one: a number with a minus before it does not
compile, and one with a sign in its exponent is a sum or a difference that begins with a variable.
-/

namespace ReactiveTemplate.Expression

open ReactiveTemplate.Text ReactiveTemplate.Json

/-! ### Characters of literals -/

/-- Blanks of JSON are blanks. -/
theorem isBlank_of_isJsonBlank {c : Char} (h : isJsonBlank c = true) : isBlank c = true := by
  simp only [isJsonBlank, Bool.or_eq_true, beq_iff_eq] at h
  rcases h with ((rfl | rfl) | rfl) | rfl <;> decide

/-- Digits are characters of values. -/
theorem isValueChar_of_isDigit {c : Char} (h : c.isDigit = true) : isValueChar c = true := by
  simp [isValueChar, Char.isAlphanum, h]

/-- Digits do not separate the parts of a path. -/
theorem not_separator_of_isDigit {c : Char} (h : c.isDigit = true) : c ≠ '.' ∧ c ≠ '[' ∧ c ≠ ']' := by
  refine ⟨?_, ?_, ?_⟩ <;> rintro rfl <;> contradiction

/-- The letters of exponents are characters of values. -/
theorem isValueChar_of_isExponentLetter {c : Char} (h : IsExponentLetter c) : isValueChar c = true := by
  rcases h with rfl | rfl <;> decide

/-- Digits are a token. -/
theorem isValueChar_of_isDigits {cs : List Char} (h : IsDigits cs) : ∀ c ∈ cs, isValueChar c = true :=
  fun c hc => isValueChar_of_isDigit (h.digits c hc)

/-- Mantissas consist of characters of values. -/
theorem isValueChar_of_isMantissa {cs : List Char} (h : IsMantissa cs) : ∀ c ∈ cs, isValueChar c = true := by
  cases h with
  | whole h => exact isValueChar_of_isDigits h
  | point h h' =>
    exact List.forall_mem_append.mpr
      ⟨isValueChar_of_isDigits h, List.forall_mem_cons.mpr ⟨rfl, isValueChar_of_isDigits h'⟩⟩

/-- So do mantissas with the letter of an exponent behind them. -/
theorem isValueChar_of_letter {mantissa : List Char} {letter : Char} (hm : IsMantissa mantissa)
    (hletter : IsExponentLetter letter) : ∀ c ∈ mantissa ++ [letter], isValueChar c = true :=
  List.forall_mem_append.mpr
    ⟨isValueChar_of_isMantissa hm, List.forall_mem_singleton.mpr (isValueChar_of_isExponentLetter hletter)⟩

/-- Characters of values are no signs. -/
theorem not_sign_of_isValueChar {cs : List Char} (h : ∀ c ∈ cs, isValueChar c = true) : '-' ∉ cs ∧ '+' ∉ cs :=
  ⟨fun hmem => absurd (h _ hmem) (by decide), fun hmem => absurd (h _ hmem) (by decide)⟩

/-! ### Literals with a sign -/

/-- A sign stands in front, or in the exponent. -/
inductive IsSigned : List Char → Prop where
  | front (cs : List Char) : IsSigned ('-' :: cs)
  | exponent {mantissa digits : List Char} {letter sign : Char} (hm : IsMantissa mantissa)
      (hletter : IsExponentLetter letter) (hsign : sign = '-' ∨ sign = '+') (hdigits : IsDigits digits) :
      IsSigned (mantissa ++ letter :: sign :: digits)

/-- What is signed has one of the two signs in it. -/
theorem IsSigned.exists_sign {cs : List Char} (h : IsSigned cs) : '-' ∈ cs ∨ '+' ∈ cs := by
  cases h with
  | front => exact Or.inl List.mem_cons_self
  | exponent _ _ hsign _ => rcases hsign with rfl | rfl <;> simp

/-- A literal is a run of value characters unless it is signed. -/
theorem value_or_signed {cs : List Char} (h : IsLiteral cs) :
    (∀ c ∈ cs, isValueChar c = true) ∨ IsSigned cs := by
  cases h with
  | word h => exact Or.inl (isValueChar_word h)
  | negated => exact Or.inr (.front _)
  | numeral h =>
    obtain ⟨hm, he⟩ := h
    have hmantissa := isValueChar_of_isMantissa hm
    cases he with
    | none => exact Or.inl (by rwa [List.append_nil])
    | unsigned hletter h =>
      exact Or.inl (List.forall_mem_append.mpr ⟨hmantissa,
        List.forall_mem_cons.mpr ⟨isValueChar_of_isExponentLetter hletter, isValueChar_of_isDigits h⟩⟩)
    | signed hletter hsign h => exact Or.inr (.exponent hm hletter hsign h)

/-! ### A mantissa with a letter behind it -/

/-- A numeral ends in digits. -/
theorem exists_digits_of_isNumeral {cs : List Char} (h : IsNumeral cs) :
    ∃ before digits, cs = before ++ digits ∧ IsDigits digits := by
  obtain @⟨mantissa, _, hm, he⟩ := h
  cases he with
  | none =>
    cases hm with
    | whole h => exact ⟨[], _, by rw [List.append_nil, List.nil_append], h⟩
    | @point cs ds _ h => exact ⟨cs ++ ['.'], ds, by simp, h⟩
  | @unsigned letter digits _ h => exact ⟨mantissa ++ [letter], digits, by simp, h⟩
  | @signed letter sign digits _ _ h => exact ⟨mantissa ++ [letter, sign], digits, by simp, h⟩

/-- The last character of a numeral is a digit. -/
theorem isDigit_last_of_isNumeral {cs : List Char} (h : IsNumeral cs) : ∀ c ∈ cs.getLast?, c.isDigit = true := by
  intro c hc
  obtain ⟨before, digits, rfl, hdigits⟩ := exists_digits_of_isNumeral h
  rw [List.getLast?_append_of_ne_nil _ hdigits.ne_nil] at hc
  exact hdigits.digits c (List.mem_of_getLast? hc)

/-- A numeral with the letter of an exponent behind it is no JSON text. -/
theorem read_error_of_letter {mantissa : List Char} {letter : Char} (hm : IsMantissa mantissa)
    (hletter : IsExponentLetter letter) : ∃ fault, Json.read (String.ofList (mantissa ++ [letter])) = .error fault := by
  have hother : letter.isDigit = false ∧ isJsonBlank letter = false := by
    rcases hletter with rfl | rfl <;> decide
  have hnumeral : IsNumeral (mantissa ++ []) := .parts hm .none
  obtain ⟨c, more, hfirst, hc⟩ := hnumeral.exists_first
  rw [List.append_nil] at hfirst
  cases hread : Json.read (String.ofList (mantissa ++ [letter])) with
  | error fault => exact ⟨fault, rfl⟩
  | ok value =>
    rw [Json.read, String.toList_ofList, hfirst, List.cons_append, readValue_digit hc] at hread
    obtain ⟨_, hvalue, hend⟩ := ok_of_bind hread
    obtain ⟨⟨number, rest⟩, hnumber, heq⟩ := ok_of_bind hvalue
    cases heq
    obtain ⟨text, htext, hnumeral⟩ := exists_of_readNumber hnumber
    -- The letter is the last character of what is left, which is not blank, or of the numeral, which ends in a digit.
    have hlast : letter ∈ (text ++ rest).getLast? := by
      rw [← htext, ← List.cons_append, List.getLast?_concat]
      rfl
    rcases List.eq_nil_or_concat rest with rfl | ⟨before, last, rfl⟩
    · rw [List.append_nil] at hlast
      exact absurd (isDigit_last_of_isNumeral hnumeral letter hlast) (by simp [hother.1])
    · rw [List.concat_eq_append, ← List.append_assoc, List.getLast?_concat, Option.mem_some_iff] at hlast
      dsimp only at hend
      split at hend
      · next hblank =>
        have hall := List.dropWhile_eq_nil_iff.mp hblank last (by simp)
        rw [hlast, hother.2] at hall
        contradiction
      · cases hend

/-- So it is a variable. -/
theorem exists_path_of_letter {mantissa : List Char} {letter : Char} (hm : IsMantissa mantissa)
    (hletter : IsExponentLetter letter) :
    ∃ p, Stack.valueTree? (String.ofList (mantissa ++ [letter])) = some (.path p) := by
  have hchars : ∀ c ∈ (String.ofList (mantissa ++ [letter])).toList, isValueChar c = true := by
    rw [String.toList_ofList]
    exact isValueChar_of_letter hm hletter
  have hpath : (Path.ofText? (String.ofList (mantissa ++ [letter]))).isSome :=
    (Path.isSome_ofText?_iff_of_isValueChar hchars).mpr
      ⟨letter, by simp, by rcases hletter with rfl | rfl <;> decide⟩
  obtain ⟨p, hp⟩ := Option.isSome_iff_exists.mp hpath
  obtain ⟨fault, hfault⟩ := read_error_of_letter hm hletter
  exact ⟨p, by rw [Stack.valueTree?, hfault, hp]; rfl⟩

/-- Digits mean something, if only a variable. -/
theorem isSome_valueTree?_of_isDigits {digits : List Char} (h : IsDigits digits) :
    (Stack.valueTree? (String.ofList digits)).isSome := by
  have hchars : ∀ c ∈ (String.ofList digits).toList, isValueChar c = true := by
    rw [String.toList_ofList]
    exact isValueChar_of_isDigits h
  obtain ⟨c, hc⟩ := List.exists_mem_of_ne_nil _ h.ne_nil
  have hpath := (Path.isSome_ofText?_iff_of_isValueChar hchars).mpr
    ⟨c, by rwa [String.toList_ofList], not_separator_of_isDigit (h.digits c hc)⟩
  rw [Stack.valueTree?]
  split
  · rfl
  · rwa [Option.isSome_map]

/-! ### What signed literals compile to -/

/-- A sign is a binary operator. -/
theorem exists_operator_of_sign {sign : Char} (h : sign = '-' ∨ sign = '+') :
    isOperatorChar sign = true ∧ String.ofList [sign] ≠ "!" ∧
      ∃ o : Operator, Operator.ofSymbol? (String.ofList [sign]) = some o ∧ (o = .subtract ∨ o = .add) := by
  rcases h with rfl | rfl
  · exact ⟨rfl, by decide, .subtract, rfl, Or.inl rfl⟩
  · exact ⟨rfl, by decide, .add, rfl, Or.inr rfl⟩

/-- A numeral with a sign in its exponent is a sum or a difference that begins with a variable. -/
theorem exists_spells_of_exponent {mantissa digits : List Char} {letter sign : Char} (hm : IsMantissa mantissa)
    (hletter : IsExponentLetter letter) (hsign : sign = '-' ∨ sign = '+') (hdigits : IsDigits digits) (start : Nat) :
    ∃ tokens o p right, Lexes start (mantissa ++ letter :: sign :: digits) tokens ∧
      Spells .sentence tokens (.binary o (.path p) right) ∧ (o = .subtract ∨ o = .add) := by
  obtain ⟨hoperator, hbinary, o, ho, hsum⟩ := exists_operator_of_sign hsign
  obtain ⟨p, hp⟩ := exists_path_of_letter hm hletter
  obtain ⟨right, hright⟩ := Option.isSome_iff_exists.mp (isSome_valueTree?_of_isDigits hdigits)
  have hvariable : Token.Lexeme .value (mantissa ++ [letter]) :=
    .value (by simp) (isValueChar_of_letter hm hletter)
  have hsymbol : Token.Lexeme .operator [sign] :=
    .operator (List.cons_ne_nil _ _) (List.forall_mem_singleton.mpr hoperator)
  have hnumber : Token.Lexeme .value digits := .value hdigits.ne_nil (isValueChar_of_isDigits hdigits)
  have hbehind : Ends isOperatorChar digits := fun c hc =>
    (not_class_of_isValueChar (isValueChar_of_isDigits hdigits c (List.mem_of_mem_head? hc))).2.2.1
  have hfirst : Ends isValueChar ([sign] ++ digits) := ends_cons (not_class_of_isOperatorChar hoperator).2.2.1 _
  have hlexes : Lexes start _ _ := .token hvariable hfirst (.token hsymbol hbehind (lexes_lexeme hnumber _))
  rw [List.append_assoc] at hlexes
  have hspells (first middle last : Span) := Spells.binary (t := ⟨.operator, String.ofList [sign], middle⟩)
    (Spells.operand (.word (t := ⟨.value, _, first⟩) (Or.inl rfl) hp)) ⟨rfl, hbinary⟩ ho
    (.word (t := ⟨.value, _, last⟩) (Or.inl rfl) hright)
  exact ⟨_, o, p, right, hlexes, hspells _ _ _, hsum⟩

/-- Nothing is compiled that begins with a minus; and a numeral with a sign in its exponent is a sum or a difference
with a variable on its left. -/
theorem exists_tree_of_isSigned {source : String} {before behind cs : List Char}
    (hsource : source.toList = before ++ cs ++ behind) (hbefore : ∀ c ∈ before, isBlank c = true)
    (hbehind : ∀ c ∈ behind, isBlank c = true) (h : IsSigned cs) {e : Expression} (hcompile : compile source = .ok e) :
    ∃ o p right, e.tree = .binary o (.path p) right ∧ (o = .subtract ∨ o = .add) := by
  cases h with
  | front cs =>
    obtain ⟨blanks, c, rest, hblanks, hc, hoperator, hchars⟩ := exists_first_of_compile hcompile
    -- The first character that is not blank is the minus, and not one an expression begins with.
    have hstart := congrArg (List.dropWhile isBlank) (hsource.symm.trans hchars)
    rw [List.append_assoc, List.cons_append, dropWhile_append_of_ends hbefore (ends_cons (by decide) _),
      dropWhile_append_of_ends hblanks (ends_cons hc _), List.cons.injEq] at hstart
    exact absurd (hoperator (hstart.1 ▸ rfl)) (hstart.1 ▸ by decide)
  | exponent hm hletter hsign hdigits =>
    obtain ⟨tokens, o, p, right, hlexes, hspells, hsum⟩ :=
      exists_spells_of_exponent hm hletter hsign hdigits (0 + byteSize before)
    have hall := (hlexes.blanks_append hbefore).append_blanks hbehind
    rw [← hsource] at hall
    rw [(compile_eq_ok_iff_lexes 0).mpr ⟨tokens, hall, hspells⟩] at hcompile
    cases hcompile
    exact ⟨o, p, right, rfl, hsum⟩

/-- A sum or a difference with a variable on its left does not evaluate everywhere. -/
theorem not_evaluates_of_tree {e : Expression} {o : Operator} {p : Path} {right : Tree}
    (h : e.tree = .binary o (.path p) right) (value : Value) :
    ¬∀ scope resolver, e.eval scope resolver = .ok value := by
  intro heval
  have hvalue := heval .empty fun _ => none
  rw [Expression.eval, h] at hvalue
  cases hvalue

/-! ### Literals as expressions -/

/-- A literal with blanks around it means its value wherever it is evaluated, unless it has a sign in it. If it is
compiled in spite of a sign, it is a sum or a difference with a variable on its left. -/
theorem literal_evaluates_iff {text before behind : String} {value : Value} (hread : Json.read text = .ok value)
    (hscalar : value.IsScalar) (hbefore : ∀ c ∈ before.toList, isBlank c = true)
    (hbehind : ∀ c ∈ behind.toList, isBlank c = true) :
    ((∃ e, compile (before ++ text ++ behind) = .ok e ∧ ∀ scope resolver, e.eval scope resolver = .ok value) ↔
      '-' ∉ text.toList ∧ '+' ∉ text.toList) ∧
    ∀ e, compile (before ++ text ++ behind) = .ok e → '-' ∈ text.toList ∨ '+' ∈ text.toList →
      ∃ o p right, e.tree = .binary o (.path p) right ∧ (o = .subtract ∨ o = .add) := by
  obtain ⟨front, literal, back, htext, hfront, hback, hliteral, halone⟩ := exists_literal_of_read hread hscalar
  have hfrontBlank (c : Char) (hc : c ∈ front) : isBlank c = true := isBlank_of_isJsonBlank (hfront c hc)
  have hbackBlank (c : Char) (hc : c ∈ back) : isBlank c = true := isBlank_of_isJsonBlank (hback c hc)
  have hall : ∀ c ∈ before.toList ++ front, isBlank c = true := List.forall_mem_append.mpr ⟨hbefore, hfrontBlank⟩
  have hrest : ∀ c ∈ back ++ behind.toList, isBlank c = true := List.forall_mem_append.mpr ⟨hbackBlank, hbehind⟩
  have hsource : (before ++ text ++ behind).toList =
      before.toList ++ front ++ literal ++ (back ++ behind.toList) := by
    simp only [String.toList_append, htext, List.append_assoc]
  rcases value_or_signed hliteral with hvalue | hsigned
  · have hnone : '-' ∉ text.toList ∧ '+' ∉ text.toList := by
      have hblank {cs : List Char} (hcs : ∀ c ∈ cs, isBlank c = true) : '-' ∉ cs ∧ '+' ∉ cs :=
        ⟨fun hmem => absurd (hcs _ hmem) (by decide), fun hmem => absurd (hcs _ hmem) (by decide)⟩
      obtain ⟨hminus, hplus⟩ := not_sign_of_isValueChar hvalue
      rw [htext]
      simp [hminus, hplus, hblank hfrontBlank, hblank hbackBlank]
    have hne : (String.ofList literal).toList ≠ [] := by
      intro hnil
      rw [String.toList_eq_nil_iff.mp hnil] at halone
      cases halone
    have hspelled : SpelledBy (String.ofList literal).toList (.constant value) :=
      .constant hne (by rwa [String.toList_ofList]) halone
    obtain ⟨tokens, hlexes, hspells⟩ := hspelled (0 + byteSize (before.toList ++ front))
    rw [String.toList_ofList] at hlexes
    have hlexes' := (hlexes.blanks_append hall).append_blanks hrest
    rw [← hsource] at hlexes'
    have hcompile := (compile_eq_ok_iff_lexes 0).mpr ⟨tokens, hlexes', hspells.operand⟩
    exact ⟨iff_of_true ⟨_, hcompile, fun _ _ => rfl⟩ hnone, fun e _ hsign =>
      absurd hnone (not_and_or.mpr (hsign.imp not_not_intro not_not_intro))⟩
  · have htree {e : Expression} (hcompile : compile (before ++ text ++ behind) = .ok e) :=
      exists_tree_of_isSigned hsource hall hrest hsigned hcompile
    refine ⟨iff_of_false ?_ ?_, fun e hcompile _ => htree hcompile⟩
    · rintro ⟨e, hcompile, heval⟩
      obtain ⟨o, p, right, heq, _⟩ := htree hcompile
      exact not_evaluates_of_tree heq value heval
    · rintro ⟨hminus, hplus⟩
      rw [htext] at hminus hplus
      rcases hsigned.exists_sign with h | h
      · exact hminus (by simp [h])
      · exact hplus (by simp [h])

/-- A number with an exponent, behind an ideographic space and in front of a tabulator. -/
theorem literal_evaluates_exponent :
    ∃ e, compile ("\u3000" ++ " 2.5E0\n" ++ "\t") = .ok e ∧
      ∀ scope resolver, e.eval scope resolver = .ok (.number (.float (scaleDown (Float.ofNat 25) 1))) := by
  have hread : Json.read " 2.5E0\n" = .ok (.number (.float (scaleDown (Float.ofNat 25) 1))) := rfl
  exact (literal_evaluates_iff hread trivial (by simp [isBlank]) (by simp [isBlank])).1.mpr (by simp)

/-- The variable to the left of the sign is called `1e` here. -/
example : (match compile "1e-5" with
    | .ok ⟨_, .binary .subtract (.path p) (.constant (.number (.integer n)))⟩ => some (p.root, n)
    | _ => none) = some ("1e", 5) := by decide +kernel

/-- A number with a minus before it is a JSON text, and no expression. -/
theorem negative_literal_rejected :
    Json.read "-1" = .ok (.number (.integer (-1))) ∧
      compile "-1" = .error ⟨.incompleteExpression, "-1", ⟨0, 2⟩⟩ := by
  have hminus : Token.Lexeme .operator ['-'] := .operator (by simp) (by simp [isOperatorChar])
  have hone : Token.Lexeme .value ['1'] := .value (by simp) (by simp [isValueChar])
  have hlexes : Lexes 0 "-1".toList _ := .token hminus (ends_cons rfl _) (lexes_lexeme hone _)
  have htokens := tokenize_eq_ok_iff.mpr hlexes
  refine ⟨rfl, ?_⟩
  rw [compile, htokens]
  rfl

end ReactiveTemplate.Expression
