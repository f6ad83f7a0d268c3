import Mathlib
import ReactiveTemplate.Proofs.Expression.Lexing
import ReactiveTemplate.Proofs.Expression.Paths

/-!
# Printed trees are read back

`Tree.grouping` writes every tree as one operand. If its words can be told apart when they are read, this
operand spells the tree again: a path must not be one of the words of JSON, a text must not hold the quote
around it, and a negation must not stand directly in front of another, because the two would be read as
one operator.
-/

namespace ReactiveTemplate.Expression

open ReactiveTemplate.Text ReactiveTemplate.Json ReactiveTemplate.Decimal

/-! ### Trees that can be read back -/

/-- A step with a key of letters, digits and underscores that is no index, or with an index. -/
inductive Step.Plain : Step → Prop where
  | key {name : String} (hne : name ≠ "") (hchars : ∀ c ∈ name.toList, isWordChar c = true)
      (hindex : Step.index? name.toList = none) : Plain (.key name)
  | index {n : Nat} (h : n ≤ Step.maxIndex) : Plain (.index n)

/-- A path whose root is a letter or an underscore with letters, digits and underscores behind it. -/
structure Path.Plain (p : Path) : Prop where
  root : ∃ c cs, p.root.toList = c :: cs ∧ (c.isAlpha = true ∨ c = '_') ∧ ∀ d ∈ cs, isWordChar d = true
  steps : ∀ step ∈ p.steps, step.Plain
  not_word : p.text ≠ "true" ∧ p.text ≠ "false" ∧ p.text ≠ "null"

/-- A tree that can be read back from its text. -/
inductive Tree.Printable : Tree → Prop where
  | null : Printable (.constant .null)
  | bool (flag : Bool) : Printable (.constant (.bool flag))
  | integer {n : Nat} (h : n < 2 ^ 64) : Printable (.constant (.number (.integer n)))
  | string {text : String} (h : '\'' ∉ text.toList) : Printable (.constant (.string text))
  | path {p : Path} (h : p.Plain) : Printable (.path p)
  | not {operand : Tree} (h : Printable operand) (hnot : ∀ inner, operand ≠ .not inner) :
      Printable (.not operand)
  | binary (operator : Operator) {left right : Tree} (hl : Printable left) (hr : Printable right) :
      Printable (.binary operator left right)

/-! ### Words -/

/-- A plain step is read back as itself. -/
theorem Step.Plain.normal {step : Step} (h : step.Plain) : step.Normal := by
  cases h with
  | key hne hchars hindex =>
    exact .key (Path.isPart_of_isWordChar (fun hnil => hne (String.toList_eq_nil_iff.mp hnil)) hchars) hindex
  | index h => exact .index h

/-- The text of a plain step consists of characters of values. -/
theorem Step.Plain.isValueChar {step : Step} (h : step.Plain) :
    ∀ c ∈ step.text.toList, Expression.isValueChar c = true := by
  intro c hc
  cases h with
  | key _ hchars =>
    rw [text, String.toList_append, List.mem_append] at hc
    rcases hc with hc | hc
    · obtain rfl := List.mem_singleton.mp hc
      rfl
    · exact isValueChar_of_isWordChar (hchars c hc)
  | @index n =>
    have hmem : c = '[' ∨ c ∈ Nat.toDigits 10 n ∨ c = ']' := by
      simpa [text, or_assoc] using hc
    rcases hmem with rfl | hmem | rfl
    · rfl
    · exact isValueChar_of_isWordChar (isWordChar_of_mem_toDigits hmem)
    · rfl

/-- A token that starts like a name means a path, unless it is one of the words. -/
theorem valueTree?_of_name {text : String} {c : Char} {cs : List Char} (htext : text.toList = c :: cs)
    (hc : c.isAlpha = true ∨ c = '_') (hchars : ∀ d ∈ text.toList, isValueChar d = true)
    (hword : ∀ word ∈ wordValues, text ≠ word.1) :
    Stack.valueTree? text = (Path.ofText? text).map .path := by
  have hblank : ∀ d ∈ text.toList, isJsonBlank d = false := by
    intro d hd
    have hvalue := hchars d hd
    simp only [isJsonBlank, Bool.or_eq_false_iff, beq_eq_false_iff_ne]
    refine ⟨⟨⟨?_, ?_⟩, ?_⟩, ?_⟩ <;> rintro rfl <;> contradiction
  obtain ⟨fault, hfault⟩ := read_eq_error_of_name htext hc hblank hword
  rw [Stack.valueTree?, hfault]

namespace Path.Plain

variable {p : Path}

/-- The characters of a plain root. -/
theorem isWordChar_root (h : p.Plain) : ∀ c ∈ p.root.toList, isWordChar c = true := by
  obtain ⟨c, cs, hroot, hc, hcs⟩ := h.root
  rw [hroot]
  refine List.forall_mem_cons.mpr ⟨?_, hcs⟩
  rcases hc with hc | rfl
  · simp [isWordChar, Char.isAlphanum, hc]
  · rfl

/-- A plain path is read back as itself. -/
theorem normal (h : p.Plain) : p.Normal where
  root := by
    obtain ⟨c, cs, hroot, _⟩ := h.root
    exact isPart_of_isWordChar (by simp [hroot]) h.isWordChar_root
  steps step hstep := (h.steps step hstep).normal

/-- The text of a plain path consists of characters of values. -/
theorem isValueChar_text (h : p.Plain) : ∀ c ∈ p.text.toList, isValueChar c = true := by
  intro c hc
  rw [toList_text, List.mem_append] at hc
  rcases hc with hc | hc
  · exact isValueChar_of_isWordChar (h.isWordChar_root c hc)
  · obtain ⟨step, hstep, hmem⟩ := List.mem_flatMap.mp hc
    exact (h.steps step hstep).isValueChar c hmem

/-- The text of a plain path starts with a letter or an underscore. -/
theorem exists_first (h : p.Plain) : ∃ c cs, p.text.toList = c :: cs ∧ (c.isAlpha = true ∨ c = '_') := by
  obtain ⟨c, cs, hroot, hc, _⟩ := h.root
  exact ⟨c, cs ++ stepChars p.steps, by rw [toList_text, hroot, List.cons_append], hc⟩

/-- The text of a plain path is one token. -/
theorem lexeme (h : p.Plain) : Token.Lexeme .value p.text.toList := by
  obtain ⟨c, cs, htext, _⟩ := h.exists_first
  exact .value (by simp [htext]) h.isValueChar_text

/-- The text of a plain path means that path. -/
theorem valueTree?_text (h : p.Plain) : Stack.valueTree? p.text = some (.path p) := by
  obtain ⟨c, cs, htext, hc⟩ := h.exists_first
  have hword : ∀ word ∈ wordValues, p.text ≠ word.1 := by
    simpa [wordValues] using ⟨h.not_word.2.2, h.not_word.1, h.not_word.2.1⟩
  rw [valueTree?_of_name htext hc h.isValueChar_text hword, h.normal.ofText?_text]
  rfl

end Path.Plain

/-! ### Operands -/

/-- The letters of the words are characters of values. -/
theorem isValueChar_word {word : String × Value} (h : word ∈ wordValues) :
    ∀ c ∈ word.1.toList, isValueChar c = true := by
  simp only [wordValues, List.mem_cons, List.not_mem_nil, or_false] at h
  rcases h with rfl | rfl | rfl <;> simp [isValueChar]

/-- The characters spell a tree as one operand, wherever they begin. -/
def SpelledBy (cs : List Char) (tree : Tree) : Prop :=
  ∀ start, ∃ tokens, Lexes start cs tokens ∧ Spells .operand tokens tree

namespace SpelledBy

variable {cs left right : List Char} {tree leftTree rightTree : Tree}

/-- A word spells its tree. -/
theorem value {text : String} (h : Token.Lexeme .value text.toList)
    (htree : Stack.valueTree? text = some tree) : SpelledBy text.toList tree := by
  intro start
  refine ⟨_, lexes_lexeme h start, .word (Or.inl rfl) ?_⟩
  simpa [Token.tree?] using htree

/-- A JSON text that is one token spells its value. -/
theorem constant {text : String} (hne : text.toList ≠ []) (hchars : ∀ c ∈ text.toList, isValueChar c = true)
    {value : Value} (hread : Json.read text = .ok value) : SpelledBy text.toList (.constant value) := by
  refine .value (.value hne hchars) ?_
  rw [Stack.valueTree?, hread]

/-- One of the words spells its value. -/
theorem word {word : String × Value} (h : word ∈ wordValues) :
    SpelledBy word.1.toList (.constant word.2) := by
  refine .constant ?_ (isValueChar_word h) (read_word h)
  simp only [wordValues, List.mem_cons, List.not_mem_nil, or_false] at h
  rcases h with rfl | rfl | rfl <;> simp

/-- A quoted text spells that text. -/
theorem string {text : String} (h : '\'' ∉ text.toList) :
    SpelledBy ('\'' :: text.toList ++ ['\'']) (.constant (.string text)) := by
  intro start
  refine ⟨_, lexes_lexeme (.string rfl h) start, .word (Or.inr rfl) ?_⟩
  simp [Token.tree?, Stack.unquoted]

/-- An operand with a negation in front spells the negation, unless an operator is in front already. -/
theorem not (h : SpelledBy cs tree) (hends : Ends isOperatorChar cs) : SpelledBy ('!' :: cs) (.not tree) := by
  intro start
  obtain ⟨tokens, hlexes, hspells⟩ := h (start + byteSize ['!'])
  have hlexeme : Token.Lexeme .operator ['!'] := .operator (by simp) (by simp [isOperatorChar])
  exact ⟨_, .token hlexeme hends hlexes, hspells.not ⟨rfl, rfl⟩⟩

/-- The symbol of an operator is one token. -/
theorem lexeme_symbol (o : Operator) : Token.Lexeme .operator o.symbol.toList := by
  cases o <;> exact .operator (by simp [Operator.symbol]) (by simp [Operator.symbol, isOperatorChar])

/-- A binary operator is not the negation. -/
theorem symbol_ne_negation (o : Operator) : o.symbol ≠ "!" := by
  cases o <;> decide

/-- Two operands with an operator between them, in parentheses. -/
theorem binary (o : Operator) (hl : SpelledBy left leftTree) (hr : SpelledBy right rightTree) :
    SpelledBy ('(' :: (left ++ ' ' :: (o.symbol.toList ++ ' ' :: (right ++ [')']))))
      (.binary o leftTree rightTree) := by
  intro start
  obtain ⟨leftTokens, hleft, hleftSpells⟩ := hl (start + byteSize ['('])
  obtain ⟨rightTokens, hright, hrightSpells⟩ :=
    hr (start + byteSize ['('] + byteSize left + ' '.utf8Size + byteSize o.symbol.toList + ' '.utf8Size)
  have hclosing := hright.append (ends_cons rfl []) (lexes_lexeme (.mark (c := ')') rfl) _)
  have hoperator := Lexes.token (lexeme_symbol o) (ends_cons rfl _) (.blank rfl hclosing)
  have hinner := hleft.append (ends_cons rfl _) (.blank rfl hoperator)
  refine ⟨_, .token (.mark (c := '(') rfl) (fun _ _ => rfl) hinner, ?_⟩
  have hsentence (span : Span) : Spells .sentence (leftTokens ++ ⟨.operator, o.symbol, span⟩ :: rightTokens)
      (.binary o leftTree rightTree) :=
    hleftSpells.operand.binary ⟨rfl, symbol_ne_negation o⟩ (Operator.ofSymbol?_symbol o) hrightSpells
  have hgroup (first middle last : Span) : Spells .operand
      (⟨.mark, "(", first⟩ :: (leftTokens ++ ⟨.operator, o.symbol, middle⟩ :: rightTokens) ++
        [⟨.mark, ")", last⟩])
      (.binary o leftTree rightTree) :=
    .group ⟨rfl, rfl⟩ (hsentence middle) ⟨rfl, rfl⟩
  simpa using hgroup _ _ _

end SpelledBy

namespace Tree.Printable

variable {tree : Tree}

/-- Null is written as a word. -/
theorem null_mem_wordValues : ("null", Value.null) ∈ wordValues := by
  simp [wordValues]

/-- A truth value is written as a word. -/
theorem bool_mem_wordValues (flag : Bool) : ((Value.bool flag).compact, Value.bool flag) ∈ wordValues := by
  cases flag <;> simp [wordValues, Value.compact]

/-- Digits are characters of values. -/
theorem isValueChar_toString {n : Nat} : ∀ c ∈ (toString n).toList, isValueChar c = true := by
  intro c hc
  have hmem : c ∈ Nat.toDigits 10 n := by simpa using hc
  exact isValueChar_of_isWordChar (Step.isWordChar_of_mem_toDigits hmem)

/-- Only a negation is written with an operator in front. -/
theorem ends_grouping (h : tree.Printable) (hnot : ∀ inner, tree ≠ .not inner) :
    Ends isOperatorChar tree.grouping.toList := by
  have hvalue {cs : List Char} (hcs : ∀ c ∈ cs, isValueChar c = true) : Ends isOperatorChar cs := by
    intro c hc
    exact (not_class_of_isValueChar (hcs c (List.mem_of_mem_head? hc))).2.2.1
  cases h with
  | null => exact hvalue (isValueChar_word null_mem_wordValues)
  | bool flag => exact hvalue (isValueChar_word (bool_mem_wordValues flag))
  | integer => exact hvalue isValueChar_toString
  | string =>
    rw [grouping, String.toList_append, String.toList_append]
    exact ends_cons (c := '\'') (by decide) _
  | path h => exact hvalue h.isValueChar_text
  | not _ _ => exact absurd rfl (hnot _)
  | binary o _ _ =>
    simp only [grouping, String.toList_append]
    exact ends_cons (c := '(') (by decide) _

/-- A tree that can be read back is spelled by its text. -/
theorem spelledBy_grouping (h : tree.Printable) : SpelledBy tree.grouping.toList tree := by
  induction h with
  | null => exact .word null_mem_wordValues
  | bool flag => exact .word (bool_mem_wordValues flag)
  | integer h =>
    exact .constant (by simp) isValueChar_toString (read_toString (Nat.le_pred_of_lt h))
  | string h => simpa [grouping] using SpelledBy.string h
  | path h => exact .value h.lexeme h.valueTree?_text
  | not h hnot ih => simpa [grouping] using ih.not (h.ends_grouping hnot)
  | binary o _ _ ihl ihr => simpa [grouping] using SpelledBy.binary o ihl ihr

/-- The text of a tree is compiled to that tree. -/
theorem compile_grouping (h : tree.Printable) :
    compile tree.grouping = .ok ⟨tree.grouping, tree⟩ := by
  obtain ⟨tokens, hlexes, hspells⟩ := h.spelledBy_grouping 0
  exact (compile_eq_ok_iff_lexes 0).mpr ⟨tokens, hlexes, hspells.operand⟩

/-- A negated path, a digit and a text with a double quote. -/
theorem compile_grouping_nested :
    compile "(!a[0].b === (7 + '\"'))" = .ok ⟨"(!a[0].b === (7 + '\"'))",
      .binary .strictEqual (.not (.path ⟨"a", [.index 0, .key "b"]⟩))
        (.binary .add (.constant (.number (.integer 7))) (.constant (.string "\"")))⟩ := by
  have hpath : Path.Plain ⟨"a", [.index 0, .key "b"]⟩ := by
    refine ⟨⟨'a', [], by simp, by decide, by simp⟩, ?_, by decide⟩
    intro step hstep
    simp only [List.mem_cons, List.not_mem_nil, or_false] at hstep
    rcases hstep with rfl | rfl
    · exact .index (by decide)
    · exact .key (by decide) (by simp [isWordChar]) (by decide)
  have hnot : Printable (.not (.path ⟨"a", [.index 0, .key "b"]⟩)) := .not (.path hpath) (by simp)
  have hsum : Printable (.binary .add (.constant (.number (.integer 7))) (.constant (.string "\""))) :=
    .binary .add (.integer (n := 7) (by decide)) (.string (by simp))
  exact compile_grouping (.binary .strictEqual hnot hsum)

end Tree.Printable

end ReactiveTemplate.Expression
