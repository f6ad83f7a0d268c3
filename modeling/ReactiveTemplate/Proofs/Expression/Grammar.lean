import Mathlib
import ReactiveTemplate.Expression.Compile
import ReactiveTemplate.Proofs.Text.Runs
import ReactiveTemplate.Proofs.Text.Words

/-!
# The grammar of expressions

An expression is a chain of operands with binary operators between them; an operand is a word, a
sentence in parentheses, or a negated operand. A derivation of tokens from this grammar is kept as a
phrase, which groups operators strictly to the left. What the grammar does not say is left to the words:
an operator token must be one of the operators, and a value token must be a JSON value or a path.
-/

namespace ReactiveTemplate.Expression

open ReactiveTemplate.Text ReactiveTemplate.Json

namespace Token

/-- The parenthesis that opens a group. -/
def IsOpening (t : Token) : Prop :=
  t.kind = .mark ∧ t.text = "("

/-- The parenthesis that closes a group. -/
def IsClosing (t : Token) : Prop :=
  t.kind = .mark ∧ t.text = ")"

/-- The operator in front of an operand. -/
def IsNegation (t : Token) : Prop :=
  t.kind = .operator ∧ t.text = "!"

/-- Any other operator token, whether it is one of the binary operators or not. -/
def IsBinary (t : Token) : Prop :=
  t.kind = .operator ∧ t.text ≠ "!"

/-- A value or a quoted text. -/
def IsWord (t : Token) : Prop :=
  t.kind = .value ∨ t.kind = .string

/-- Operator tokens are the negation or one of the binary operators, value tokens are JSON values or have
a character that does not only separate the parts of a path. -/
def Admissible (t : Token) : Prop :=
  (t.kind = .operator → t.text = "!" ∨ ∃ o : Operator, t.text = o.symbol) ∧
    (t.kind = .value →
      (∃ value, Json.read t.text = .ok value) ∨ ∃ c ∈ t.text.toList, c ≠ '.' ∧ c ≠ '[' ∧ c ≠ ']')

/-- What is known of a token from the way in which it was cut out of a source. -/
def WellCut (t : Token) : Prop :=
  match t.kind with
  | .mark => t.text = "(" ∨ t.text = ")"
  | .value => ∀ c ∈ t.text.toList, isValueChar c = true
  | _ => True

/-- The tree of a word. -/
def tree? (t : Token) : Option Tree :=
  match t.kind with
  | .string => some (.constant (.string (Stack.unquoted t.text)))
  | _ => Stack.valueTree? t.text

end Token

/-- A derivation: which words are negated, and which operators join what. -/
inductive Phrase where
  | word (token : Token)
  | not (operand : Phrase)
  | binary (operator : Token) (left right : Phrase)

/-- The tree of a derivation, if its words and operators have a meaning. -/
def Phrase.tree? : Phrase → Option Tree
  | word t => t.tree?
  | not operand => operand.tree?.map .not
  | binary t left right => do
    let o ← Operator.ofSymbol? t.text
    let leftTree ← left.tree?
    let rightTree ← right.tree?
    pure (.binary o leftTree rightTree)

/-- What the grammar derives. -/
inductive Nonterminal where
  | operand
  | sentence

/-- The tokens derive from the grammar, in the way of a phrase. -/
inductive Derives : Nonterminal → List Token → Phrase → Prop
  | word {t : Token} (h : t.IsWord) : Derives .operand [t] (.word t)
  | group {opening closing : Token} {tokens : List Token} {phrase : Phrase} (ho : opening.IsOpening)
      (h : Derives .sentence tokens phrase) (hc : closing.IsClosing) :
      Derives .operand (opening :: tokens ++ [closing]) phrase
  | not {t : Token} {tokens : List Token} {phrase : Phrase} (ht : t.IsNegation)
      (h : Derives .operand tokens phrase) : Derives .operand (t :: tokens) (.not phrase)
  | operand {tokens : List Token} {phrase : Phrase} (h : Derives .operand tokens phrase) :
      Derives .sentence tokens phrase
  | binary {t : Token} {before after : List Token} {left right : Phrase}
      (hl : Derives .sentence before left) (ht : t.IsBinary) (hr : Derives .operand after right) :
      Derives .sentence (before ++ t :: after) (.binary t left right)

/-- The tokens derive from the grammar and mean a tree. -/
def Spells (symbol : Nonterminal) (tokens : List Token) (tree : Tree) : Prop :=
  ∃ phrase, Derives symbol tokens phrase ∧ phrase.tree? = some tree

/-- The first token of a derivation is a word, a parenthesis that opens, or a negation. -/
theorem first_of_derives {symbol : Nonterminal} {tokens : List Token} {phrase : Phrase}
    (h : Derives symbol tokens phrase) :
    ∃ t rest, tokens = t :: rest ∧ (t.IsWord ∨ t.IsOpening ∨ t.IsNegation) := by
  induction h with
  | word ht => exact ⟨_, _, rfl, Or.inl ht⟩
  | group ho _ _ _ => exact ⟨_, _, rfl, Or.inr (Or.inl ho)⟩
  | not ht _ _ => exact ⟨_, _, rfl, Or.inr (Or.inr ht)⟩
  | operand _ ih => exact ih
  | binary _ _ _ ihl _ =>
    obtain ⟨t, rest, rfl, ht⟩ := ihl
    exact ⟨t, _, rfl, ht⟩

/-! ### Words -/

/-- The operator of a symbol has that symbol. -/
theorem Operator.eq_symbol_of_ofSymbol? {symbol : String} {o : Operator}
    (h : Operator.ofSymbol? symbol = some o) : symbol = o.symbol := by
  simp only [ofSymbol?, table, List.lookup_cons, List.lookup_nil] at h
  repeat' split at h
  all_goals simp_all [Operator.symbol]
  all_goals subst h; rfl

/-- Characters of values are not blank. -/
theorem isBlank_eq_false_of_isValueChar {c : Char} (h : isValueChar c = true) : isBlank c = false := by
  have hcode : (48 ≤ c.toNat ∧ c.toNat ≤ 57) ∨ (65 ≤ c.toNat ∧ c.toNat ≤ 90) ∨
      (97 ≤ c.toNat ∧ c.toNat ≤ 122) ∨ c.toNat = 46 ∨ c.toNat = 95 ∨ c.toNat = 91 ∨ c.toNat = 93 := by
    simp only [isValueChar, Char.isAlphanum, Char.isAlpha, Char.isUpper, Char.isLower, Char.isDigit,
      Bool.or_eq_true, Bool.and_eq_true, decide_eq_true_eq, beq_iff_eq, UInt32.le_iff_toNat_le] at h
    rcases h with ((((((hlow | hhigh) | hdigit) | rfl) | rfl) | rfl) | rfl)
    · exact Or.inr (Or.inl hlow)
    · exact Or.inr (Or.inr (Or.inl hhigh))
    · exact Or.inl hdigit
    all_goals decide
  simp only [isBlank, Bool.or_eq_false_iff, Bool.and_eq_false_iff, decide_eq_false_iff_not, beq_eq_false_iff_ne]
  omega

/-- A text is a path if it has a character that neither is blank nor separates. -/
theorem Path.isSome_ofText?_iff {text : String} :
    (Path.ofText? text).isSome ↔ ∃ c ∈ text.toList, isBlank c = false ∧ Path.isSeparator c = false := by
  have hparts : (Path.ofText? text).isSome ↔ Path.parts text ≠ [] := by
    rw [Path.ofText?]
    cases Path.parts text <;> simp
  rw [hparts]
  constructor
  · intro hne
    obtain ⟨part, hpart⟩ := List.exists_mem_of_ne_nil _ hne
    rw [Path.parts, List.mem_filter, List.mem_map] at hpart
    obtain ⟨⟨piece, hpiece, rfl⟩, hsome⟩ := hpart
    obtain ⟨c, hc, hblank⟩ : ∃ c ∈ piece, isBlank c = false := by simpa [trim_eq_nil_iff] using hsome
    obtain ⟨hmem, hother⟩ := exists_mem_splitOnP.mp ⟨piece, hpiece, hc⟩
    exact ⟨c, hmem, hblank, hother⟩
  · intro hsome
    obtain ⟨c, hmem, hblank, hother⟩ := hsome
    obtain ⟨piece, hpiece, hc⟩ := exists_mem_splitOnP.mpr ⟨hmem, hother⟩
    apply List.ne_nil_of_mem (a := trim piece)
    rw [Path.parts, List.mem_filter, List.mem_map]
    exact ⟨⟨piece, hpiece, rfl⟩, by simpa [trim_eq_nil_iff] using ⟨c, hc, hblank⟩⟩

/-- A value token is a path unless it only separates. -/
theorem Path.isSome_ofText?_iff_of_isValueChar {text : String} (h : ∀ c ∈ text.toList, isValueChar c = true) :
    (Path.ofText? text).isSome ↔ ∃ c ∈ text.toList, c ≠ '.' ∧ c ≠ '[' ∧ c ≠ ']' := by
  rw [isSome_ofText?_iff]
  refine exists_congr fun c => and_congr_right fun hc => ?_
  simp [Path.isSeparator, isBlank_eq_false_of_isValueChar (h c hc), and_assoc]

/-- A value token has a tree if it is a JSON value or does not only separate. -/
theorem Token.isSome_tree?_iff {t : Token} (hcut : t.WellCut) (ht : t.IsWord) :
    t.tree?.isSome ↔ t.Admissible := by
  rcases ht with hkind | hkind
  · have hchars : ∀ c ∈ t.text.toList, isValueChar c = true := by
      simpa [WellCut, hkind] using hcut
    simp only [tree?, Admissible, Stack.valueTree?, hkind, reduceCtorEq, false_implies, true_and,
      true_implies, ← Path.isSome_ofText?_iff_of_isValueChar hchars]
    cases Json.read t.text <;> simp
  · simp [tree?, Admissible, hkind]

/-- A binary operator token means an operator if it is admissible. -/
theorem Token.isSome_ofSymbol?_iff {t : Token} (ht : t.IsBinary) :
    (Operator.ofSymbol? t.text).isSome ↔ t.Admissible := by
  obtain ⟨hkind, hne⟩ := ht
  simp only [Admissible, hkind, hne, true_implies, false_or, reduceCtorEq, false_implies, and_true]
  constructor
  · intro h
    obtain ⟨o, ho⟩ := Option.isSome_iff_exists.mp h
    exact ⟨o, Operator.eq_symbol_of_ofSymbol? ho⟩
  · intro h
    obtain ⟨o, ho⟩ := h
    rw [ho, Operator.ofSymbol?_symbol]
    rfl

/-- An operator with two operands means a tree if all three have a meaning. -/
theorem Phrase.isSome_tree?_binary {t : Token} {left right : Phrase} :
    (Phrase.binary t left right).tree?.isSome ↔
      left.tree?.isSome ∧ (Operator.ofSymbol? t.text).isSome ∧ right.tree?.isSome := by
  rw [Phrase.tree?]
  cases Operator.ofSymbol? t.text <;> cases left.tree? <;> cases right.tree? <;> simp

/-- A derivation means a tree if and only if its tokens are admissible. -/
theorem Derives.isSome_tree?_iff {symbol : Nonterminal} {tokens : List Token} {phrase : Phrase}
    (h : Derives symbol tokens phrase) (hcut : ∀ t ∈ tokens, t.WellCut) :
    phrase.tree?.isSome ↔ ∀ t ∈ tokens, t.Admissible := by
  have hother {t : Token} (hkind : t.kind = .mark) : t.Admissible := by
    simp [Token.Admissible, hkind]
  induction h with
  | word ht => simpa [Phrase.tree?] using Token.isSome_tree?_iff (hcut _ (by simp)) ht
  | group ho _ hc ih =>
    refine (ih fun t ht => hcut t (by simp [ht])).trans ?_
    simp [or_imp, forall_and, hother ho.1, hother hc.1]
  | not ht _ ih =>
    have hnot : Token.Admissible _ := ⟨fun _ => Or.inl ht.2, fun hkind => by simp [ht.1] at hkind⟩
    rw [Phrase.tree?, Option.isSome_map]
    refine (ih fun t ht => hcut t (by simp [ht])).trans ?_
    simp [hnot]
  | operand _ ih => exact ih hcut
  | @binary t before after left right _ ht _ ihl ihr =>
    have hl : left.tree?.isSome ↔ ∀ t ∈ before, t.Admissible := ihl fun t ht => hcut t (by simp [ht])
    have hr : right.tree?.isSome ↔ ∀ t ∈ after, t.Admissible := ihr fun t ht => hcut t (by simp [ht])
    rw [Phrase.isSome_tree?_binary, hl, hr, Token.isSome_ofSymbol?_iff ht]
    simp [or_imp, forall_and]

/-! ### Tokens of a source -/

/-- The first token of a source is well cut. -/
theorem Piece.wellCut_first {c : Char} {cs text rest : List Char} {kind : Token.Kind} {span : Span}
    (h : Piece.first c cs = .token kind text rest) : Token.WellCut ⟨kind, String.ofList text, span⟩ := by
  unfold Piece.first at h
  split at h
  · next hmark =>
    cases h
    simp only [isMark, Bool.or_eq_true, beq_iff_eq] at hmark
    rcases hmark with rfl | rfl
    · exact Or.inl rfl
    · exact Or.inr rfl
  · split at h
    · split at h
      · cases h
      · cases h
        exact trivial
    · split at h
      · next hvalue =>
        cases h
        intro d hd
        rw [String.toList_ofList, List.mem_cons] at hd
        rcases hd with rfl | hd
        · exact hvalue
        · exact List.mem_takeWhile_imp hd
      · split at h
        · cases h
          exact trivial
        · split at h <;> cases h

/-- All tokens of a source are well cut. -/
theorem Token.wellCut_scan {start : Nat} {source : List Char} {tokens : List Token}
    (h : Token.scan start source = .ok tokens) : ∀ t ∈ tokens, t.WellCut := by
  induction hsize : source.length using Nat.strongRecOn generalizing start source tokens with
  | ind size ih =>
    rw [Token.scan.eq_def] at h
    split at h
    · cases h
      simp
    · next c cs =>
      split at h
      · next kind text rest hfirst =>
        cases hrest : Token.scan (start + byteSize text) rest with
        | error fault =>
          rw [hrest] at h
          cases h
        | ok more =>
          rw [hrest] at h
          cases h
          intro t ht
          rcases List.mem_cons.mp ht with rfl | ht
          · exact Piece.wellCut_first hfirst
          · exact ih _ (hsize ▸ Piece.first_token_length hfirst) hrest rfl t ht
      · next d rest hfirst =>
        exact ih _ (hsize ▸ Piece.first_blank_length hfirst) h rfl
      · cases h

/-- All tokens of a source are well cut. -/
theorem wellCut_tokenize {source : String} {tokens : List Token} (h : tokenize source = .ok tokens) :
    ∀ t ∈ tokens, t.WellCut := by
  rw [tokenize] at h
  cases hscan : Token.scan 0 source.toList with
  | error fault =>
    rw [hscan] at h
    cases h
  | ok found =>
    rw [hscan] at h
    cases h
    exact Token.wellCut_scan hscan

end ReactiveTemplate.Expression
