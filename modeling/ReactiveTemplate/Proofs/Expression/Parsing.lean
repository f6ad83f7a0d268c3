import ReactiveTemplate.Proofs.Expression.Grammar
import ReactiveTemplate.Proofs.Fallible
import ReactiveTemplate.Proofs.Render.Reading

/-!
# The stack accepts the grammar

A stack that has taken some tokens stands for them: each level for a prefix of a sentence, or for a
sequence that can become none. So what is finished spells its tree. Conversely the tokens of an operand
have the effect of `Stack.addOperand`, and the tokens of a sentence fill an empty level with one operand.
-/

namespace ReactiveTemplate.Expression

open ReactiveTemplate.Text ReactiveTemplate.Json

/-! ### Spelled trees -/

namespace Spells

variable {before tokens after : List Token} {t opening closing : Token} {tree left right : Tree}

/-- A word spells its tree. -/
theorem word (ht : t.IsWord) (htree : t.tree? = some tree) : Spells .operand [t] tree :=
  ⟨.word t, .word ht, htree⟩

/-- A negated operand spells the negation. -/
theorem not (ht : t.IsNegation) (h : Spells .operand tokens tree) :
    Spells .operand (t :: tokens) (.not tree) := by
  obtain ⟨phrase, hderives, htree⟩ := h
  refine ⟨.not phrase, .not ht hderives, ?_⟩
  rw [Phrase.tree?, htree]
  rfl

/-- A sentence in parentheses spells the same tree. -/
theorem group (ho : opening.IsOpening) (h : Spells .sentence tokens tree) (hc : closing.IsClosing) :
    Spells .operand (opening :: tokens ++ [closing]) tree := by
  obtain ⟨phrase, hderives, htree⟩ := h
  exact ⟨phrase, .group ho hderives hc, htree⟩

/-- An operand is a sentence. -/
theorem operand (h : Spells .operand tokens tree) : Spells .sentence tokens tree := by
  obtain ⟨phrase, hderives, htree⟩ := h
  exact ⟨phrase, .operand hderives, htree⟩

/-- A sentence with one more operand spells a tree that joins the two. -/
theorem binary {o : Operator} (hl : Spells .sentence before left) (ht : t.IsBinary)
    (ho : Operator.ofSymbol? t.text = some o) (hr : Spells .operand after right) :
    Spells .sentence (before ++ t :: after) (.binary o left right) := by
  obtain ⟨leftPhrase, hleft, hleftTree⟩ := hl
  obtain ⟨rightPhrase, hright, hrightTree⟩ := hr
  refine ⟨.binary t leftPhrase rightPhrase, .binary hleft ht hright, ?_⟩
  rw [Phrase.tree?, ho, hleftTree, hrightTree]
  rfl

end Spells

/-! ### What a stack stands for -/

/-- The tokens that a level has taken: those of one sentence, of a sentence and a binary operator, or
some that are no beginning of a sentence. -/
def Content.StandsFor (tokens : List Token) : Content → Prop
  | empty => tokens = []
  | operand only => Spells .sentence tokens only.tree
  | pending left o => ∃ before t, tokens = before ++ [t] ∧ Spells .sentence before left.tree ∧
      t.IsBinary ∧ Operator.ofSymbol? t.text = some o
  | broken _ _ => True

/-- The tokens that a stack has taken, level by level. -/
def Stack.StandsFor (tokens : List Token) : Stack → Prop
  | whole content => content.StandsFor tokens
  | group _ content outer => ∃ before opening inner, tokens = before ++ opening :: inner ∧
      outer.StandsFor before ∧ opening.IsOpening ∧ content.StandsFor inner
  | negation _ outer => ∃ before t, tokens = before ++ [t] ∧ outer.StandsFor before ∧ t.IsNegation

section Soundness

variable {before tokens : List Token} {content content' : Content} {stack stack' : Stack}
  {added : Operand} {o : Operator} {span : Span} {t : Token}

/-- A level with one more operand. -/
theorem Content.StandsFor.addOperand (h : content.StandsFor before)
    (hadded : Spells .operand tokens added.tree) (hcontent : content.addOperand added = .ok content') :
    content'.StandsFor (before ++ tokens) := by
  cases content with
  | empty =>
    cases hcontent
    obtain rfl : before = [] := h
    exact hadded.operand
  | operand first =>
    cases hcontent
    trivial
  | pending left o =>
    cases hcontent
    obtain ⟨first, t, rfl, hleft, ht, ho⟩ := h
    rw [List.append_assoc]
    exact hleft.binary ht ho hadded
  | broken start endsInOperator =>
    cases endsInOperator with
    | false =>
      cases hcontent
      trivial
    | true => cases hcontent

/-- A level with one more operator. -/
theorem Content.StandsFor.addOperator (h : content.StandsFor before) (ht : t.IsBinary)
    (ho : Operator.ofSymbol? t.text = some o) (hcontent : content.addOperator o span = .ok content') :
    content'.StandsFor (before ++ [t]) := by
  cases content with
  | empty =>
    cases hcontent
    trivial
  | operand left =>
    cases hcontent
    exact ⟨before, t, rfl, h, ht, ho⟩
  | pending left o => cases hcontent
  | broken start endsInOperator =>
    cases endsInOperator with
    | false =>
      cases hcontent
      trivial
    | true => cases hcontent

/-- A level that is one operand stands for its tree. -/
theorem Content.StandsFor.spells (h : content.StandsFor tokens) {tree : Tree}
    (htree : content.single? = some tree) : Spells .sentence tokens tree := by
  cases content with
  | operand only =>
    cases htree
    exact h
  | _ => cases htree

/-- A stack with one more operand. -/
theorem Stack.StandsFor.addOperand (h : stack.StandsFor before)
    (hadded : Spells .operand tokens added.tree) (hstack : stack.addOperand added = .ok stack') :
    stack'.StandsFor (before ++ tokens) := by
  induction stack generalizing before tokens added with
  | whole content =>
    obtain ⟨content', hcontent, hfilled⟩ := ok_of_bind hstack
    cases hfilled
    exact Content.StandsFor.addOperand h hadded hcontent
  | group openedAt content outer =>
    obtain ⟨content', hcontent, hfilled⟩ := ok_of_bind hstack
    cases hfilled
    obtain ⟨first, opening, inner, rfl, houter, ho, hinner⟩ := h
    refine ⟨first, opening, inner ++ tokens, by simp, houter, ho, ?_⟩
    exact hinner.addOperand hadded hcontent
  | negation openedAt outer ih =>
    obtain ⟨first, t, rfl, houter, ht⟩ := h
    rw [List.append_assoc]
    refine ih houter ?_ hstack
    exact hadded.not ht

/-- A stack with one more operator. -/
theorem Stack.StandsFor.addOperator (h : stack.StandsFor before) (ht : t.IsBinary)
    (ho : Operator.ofSymbol? t.text = some o) (hstack : stack.addOperator o span = .ok stack') :
    stack'.StandsFor (before ++ [t]) := by
  cases stack with
  | whole content =>
    obtain ⟨content', hcontent, hfilled⟩ := ok_of_bind hstack
    cases hfilled
    exact Content.StandsFor.addOperator h ht ho hcontent
  | group openedAt content outer =>
    obtain ⟨content', hcontent, hfilled⟩ := ok_of_bind hstack
    cases hfilled
    obtain ⟨first, opening, inner, rfl, houter, hopening, hinner⟩ := h
    refine ⟨first, opening, inner ++ [t], by simp, houter, hopening, ?_⟩
    exact hinner.addOperator ht ho hcontent
  | negation openedAt outer => cases hstack

/-- A stack after a closing parenthesis. -/
theorem Stack.StandsFor.close (h : stack.StandsFor before) (ht : t.IsClosing)
    (hstack : stack.close span = .ok stack') : stack'.StandsFor (before ++ [t]) := by
  cases stack with
  | whole content => cases hstack
  | group openedAt content outer =>
    obtain ⟨first, opening, inner, rfl, houter, ho, hinner⟩ := h
    rw [close] at hstack
    cases hsingle : content.single? with
    | none =>
      rw [hsingle] at hstack
      cases hstack
    | some tree =>
      rw [hsingle] at hstack
      rw [List.append_assoc]
      exact houter.addOperand (.group ho (hinner.spells hsingle) ht) hstack
  | negation openedAt outer => cases hstack

/-- A stack with one more token. -/
theorem Stack.StandsFor.take (h : stack.StandsFor before) (hcut : t.WellCut)
    (hstack : stack.take t = .ok stack') : stack'.StandsFor (before ++ [t]) := by
  rw [Stack.take] at hstack
  cases hkind : t.kind with
  | mark =>
    simp only [hkind] at hstack
    split at hstack
    · next htext =>
      cases hstack
      exact ⟨before, t, [], rfl, h, ⟨hkind, htext⟩, rfl⟩
    · next htext =>
      have hclosing : t.text = ")" := by
        simp only [Token.WellCut, hkind] at hcut
        exact hcut.resolve_left htext
      exact h.close ⟨hkind, hclosing⟩ hstack
  | operator =>
    simp only [hkind] at hstack
    split at hstack
    · next htext =>
      cases hstack
      exact ⟨before, t, rfl, h, hkind, htext⟩
    · next htext =>
      split at hstack
      · next o ho => exact h.addOperator ⟨hkind, htext⟩ ho hstack
      · cases hstack
  | string =>
    simp only [hkind] at hstack
    exact h.addOperand (.word (Or.inr hkind) (by simp [Token.tree?, hkind])) hstack
  | value =>
    simp only [hkind] at hstack
    split at hstack
    · next tree htree =>
      exact h.addOperand (.word (Or.inl hkind) (by simp [Token.tree?, hkind, htree])) hstack
    · cases hstack

/-- A stack after all tokens. -/
theorem Stack.StandsFor.takeAll (h : stack.StandsFor before) (hcut : ∀ t ∈ tokens, t.WellCut)
    (hstack : tokens.foldlM Stack.take stack = .ok stack') : stack'.StandsFor (before ++ tokens) := by
  induction tokens generalizing before stack with
  | nil =>
    cases hstack
    simpa using h
  | cons t rest ih =>
    rw [List.foldlM_cons] at hstack
    obtain ⟨next, hnext, hrest⟩ := ok_of_bind hstack
    have hall := ih (h.take (hcut t List.mem_cons_self) hnext)
      (fun u hu => hcut u (List.mem_cons_of_mem t hu)) hrest
    simpa using hall

/-- What is finished spells its tree. -/
theorem Stack.StandsFor.spells (h : stack.StandsFor tokens) {stop : Nat} {tree : Tree}
    (htree : stack.finish stop = .ok tree) : Spells .sentence tokens tree := by
  cases stack with
  | whole content =>
    rw [finish] at htree
    cases hsingle : content.single? with
    | none =>
      rw [hsingle] at htree
      cases htree
    | some only =>
      rw [hsingle] at htree
      cases htree
      exact Content.StandsFor.spells h hsingle
  | group openedAt content outer => cases htree
  | negation openedAt outer => cases htree

end Soundness

/-! ### What derived tokens do to a stack -/

/-- The innermost level of parentheses: the whole, or a group with its beginning and what is around it. -/
def Stack.level (around : Option (Nat × Stack)) (content : Content) : Stack :=
  match around with
  | none => .whole content
  | some (openedAt, outer) => .group openedAt content outer

/-- The tokens of an operand add it to any stack, the tokens of a sentence fill any empty level. -/
def Nonterminal.Fills (tokens : List Token) (tree : Tree) : Nonterminal → Prop
  | operand => ∀ stack, ∃ span, tokens.foldlM Stack.take stack = stack.addOperand ⟨tree, span⟩
  | sentence => ∀ around, ∃ span, tokens.foldlM Stack.take (Stack.level around .empty) =
      .ok (Stack.level around (.operand ⟨tree, span⟩))

/-- The effect of one token. -/
theorem Stack.foldlM_take_singleton (stack : Stack) (t : Token) :
    [t].foldlM Stack.take stack = stack.take t := by
  rw [List.foldlM_cons]
  exact bind_pure _

/-- Derived tokens that mean a tree have its effect. -/
theorem Derives.fills {symbol : Nonterminal} {tokens : List Token} {phrase : Phrase}
    (h : Derives symbol tokens phrase) {tree : Tree} (htree : phrase.tree? = some tree) :
    symbol.Fills tokens tree := by
  induction h generalizing tree with
  | @word t ht =>
    intro stack
    refine ⟨t.span, ?_⟩
    rw [Phrase.tree?, Token.tree?] at htree
    rw [Stack.foldlM_take_singleton, Stack.take]
    rcases ht with hkind | hkind
    · simp only [hkind] at htree ⊢
      rw [htree]
    · simp only [hkind, Option.some.injEq] at htree ⊢
      rw [htree]
  | @group opening closing tokens phrase ho _ hc ih =>
    intro stack
    obtain ⟨span, hinner⟩ := ih htree (some (opening.span.start, stack))
    refine ⟨⟨opening.span.start, closing.span.stop⟩, ?_⟩
    have hopen : stack.take opening = .ok (Stack.level (some (opening.span.start, stack)) .empty) := by
      simp [Stack.take, ho.1, ho.2, Stack.level]
    have hclose : (Stack.level (some (opening.span.start, stack)) (.operand ⟨tree, span⟩)).take closing =
        stack.addOperand ⟨tree, ⟨opening.span.start, closing.span.stop⟩⟩ := by
      simp [Stack.take, hc.1, hc.2, Stack.level, Stack.close, Content.single?]
    rw [List.cons_append, List.foldlM_cons, hopen]
    change (tokens ++ [closing]).foldlM Stack.take _ = _
    rw [List.foldlM_append, hinner]
    change [closing].foldlM Stack.take _ = _
    rw [Stack.foldlM_take_singleton, hclose]
  | @not t tokens phrase ht _ ih =>
    intro stack
    obtain ⟨operand, hoperand, rfl⟩ := Option.map_eq_some_iff.mp htree
    obtain ⟨span, hrest⟩ := ih hoperand (.negation t.span.start stack)
    refine ⟨⟨t.span.start, span.stop⟩, ?_⟩
    have hnegate : stack.take t = .ok (.negation t.span.start stack) := by
      simp [Stack.take, ht.1, ht.2]
    rw [List.foldlM_cons, hnegate]
    exact hrest
  | operand _ ih =>
    intro around
    obtain ⟨span, htokens⟩ := ih htree (Stack.level around .empty)
    refine ⟨span, htokens.trans ?_⟩
    cases around <;> rfl
  | @binary t before after left right _ ht _ ihl ihr =>
    intro around
    simp only [Phrase.tree?, Option.bind_eq_bind, Option.bind_eq_some_iff] at htree
    obtain ⟨o, ho, leftTree, hleft, rightTree, hright, htree⟩ := htree
    cases htree
    obtain ⟨leftSpan, hbefore⟩ := ihl hleft around
    obtain ⟨rightSpan, hafter⟩ := ihr hright (Stack.level around (.pending ⟨leftTree, leftSpan⟩ o))
    refine ⟨leftSpan.through rightSpan, ?_⟩
    have hoperator : (Stack.level around (.operand ⟨leftTree, leftSpan⟩)).take t =
        .ok (Stack.level around (.pending ⟨leftTree, leftSpan⟩ o)) := by
      simp only [Stack.take, ht.1, ht.2, ho, if_false]
      cases around <;> rfl
    rw [List.foldlM_append, hbefore]
    change (t :: after).foldlM Stack.take _ = _
    rw [List.foldlM_cons, hoperator]
    refine hafter.trans ?_
    cases around <;> rfl

/-! ### What is compiled -/

/-- No tokens derive from nothing. -/
theorem Derives.ne_nil {symbol : Nonterminal} {tokens : List Token} {phrase : Phrase}
    (h : Derives symbol tokens phrase) : tokens ≠ [] := by
  induction h with
  | operand _ ih => exact ih
  | _ => simp

/-- Tokens have the trees that they spell. -/
theorem treeOf_eq_ok_iff {stop : Nat} {tokens : List Token} (hcut : ∀ t ∈ tokens, t.WellCut)
    {tree : Tree} : treeOf stop tokens = .ok tree ↔ Spells .sentence tokens tree := by
  rw [treeOf]
  constructor
  · intro h
    split at h
    · cases h
    · obtain ⟨stack, hstack, hfinish⟩ := ok_of_bind h
      have hempty : (Stack.whole .empty).StandsFor [] := rfl
      exact (hempty.takeAll hcut hstack).spells hfinish
  · intro h
    obtain ⟨phrase, hderives, htree⟩ := h
    obtain ⟨span, htokens⟩ := hderives.fills htree none
    rw [if_neg (by simpa using hderives.ne_nil)]
    change (tokens.foldlM Stack.take (Stack.level none .empty) >>= _) = _
    rw [htokens]
    rfl

/-- The expression of a source has the tree that its tokens spell. -/
theorem compile_eq_ok_iff {source : String} {e : Expression} :
    compile source = .ok e ↔
      e.source = source ∧ ∃ tokens, tokenize source = .ok tokens ∧ Spells .sentence tokens e.tree := by
  rw [compile]
  constructor
  · intro h
    obtain ⟨tokens, htokens, h⟩ := ok_of_bind h
    obtain ⟨tree, htree, h⟩ := ok_of_bind h
    cases h
    refine ⟨rfl, tokens, htokens, ?_⟩
    cases hof : treeOf (byteSize source.toList) tokens with
    | error fault =>
      rw [hof] at htree
      cases htree
    | ok found =>
      rw [hof] at htree
      cases htree
      exact (treeOf_eq_ok_iff (wellCut_tokenize htokens)).mp hof
  · intro h
    obtain ⟨rfl, tokens, htokens, hspells⟩ := h
    rw [htokens]
    change ((treeOf _ tokens).mapError _ >>= _) = _
    rw [(treeOf_eq_ok_iff (wellCut_tokenize htokens)).mpr hspells]
    rfl

/-- Evaluation fails only for a variable in the tree that does not resolve. -/
theorem Tree.unresolved_of_eval {tree : Tree} {scope : Scope} {resolver : Resolver}
    {error : ResolutionError} (h : tree.eval scope resolver = .error error) :
    error.kind = .variable ∧ tree.Mentions error.name ∧ scope.resolve resolver error.name = none := by
  induction tree with
  | constant value => cases h
  | path p =>
    rw [eval, Path.eval] at h
    cases hroot : scope.resolve resolver p.root with
    | some value =>
      rw [hroot] at h
      cases h
    | none =>
      rw [hroot] at h
      cases h
      exact ⟨rfl, rfl, hroot⟩
  | not operand ih =>
    rw [eval] at h
    cases hoperand : operand.eval scope resolver with
    | ok value =>
      rw [hoperand] at h
      cases h
    | error found =>
      rw [hoperand] at h
      cases h
      exact ih hoperand
  | binary o left right ihl ihr =>
    rw [eval] at h
    cases hleft : left.eval scope resolver with
    | error found =>
      rw [hleft] at h
      cases h
      obtain ⟨hkind, hmentions, hnone⟩ := ihl hleft
      exact ⟨hkind, Or.inl hmentions, hnone⟩
    | ok leftValue =>
      rw [hleft] at h
      change (if decides o leftValue then _ else _) = _ at h
      split at h
      · cases h
      · cases hright : right.eval scope resolver with
        | error found =>
          rw [hright] at h
          cases h
          obtain ⟨hkind, hmentions, hnone⟩ := ihr hright
          exact ⟨hkind, Or.inr hmentions, hnone⟩
        | ok rightValue =>
          rw [hright] at h
          cases h

/-- What is reported of an evaluation that fails is a variable of the expression without a value. -/
theorem unresolved_of_eval {e : Expression} {scope : Scope} {resolver : Resolver} {error : Error}
    (h : (e.eval scope resolver).mapError .resolution = .error error) :
    ∃ name, error = .resolution ⟨.variable, name⟩ ∧ e.Mentions name ∧ scope.resolve resolver name = none := by
  rw [eval] at h
  cases heval : e.tree.eval scope resolver with
  | ok value =>
    rw [heval] at h
    cases h
  | error found =>
    rw [heval] at h
    cases h
    obtain ⟨hkind, hmentions, hnone⟩ := Tree.unresolved_of_eval heval
    obtain ⟨kind, name⟩ := found
    cases hkind
    exact ⟨name, rfl, hmentions, hnone⟩

/-- A source compiles if and only if its tokens are admissible and derive from the grammar; its tree is
that of the derivation, and evaluation fails only for variables that do not resolve. -/
theorem compile_iff_derives (source : String) :
    ((∃ e, compile source = .ok e) ↔ ∃ tokens phrase, tokenize source = .ok tokens ∧
      (∀ t ∈ tokens, t.Admissible) ∧ Derives .sentence tokens phrase) ∧
    (∀ e, compile source = .ok e ↔ e.source = source ∧ ∃ tokens phrase,
      tokenize source = .ok tokens ∧ (∀ t ∈ tokens, t.Admissible) ∧ Derives .sentence tokens phrase ∧
        phrase.tree? = some e.tree) ∧
    ∀ e, compile source = .ok e → ∀ scope resolver error, e.eval scope resolver = .error error →
      error.kind = .variable ∧ e.Mentions error.name ∧ scope.resolve resolver error.name = none := by
  refine ⟨⟨?_, ?_⟩, fun e => ⟨?_, ?_⟩, fun e _ scope resolver error h => Tree.unresolved_of_eval h⟩
  · intro h
    obtain ⟨e, he⟩ := h
    obtain ⟨_, tokens, htokens, phrase, hderives, htree⟩ := compile_eq_ok_iff.mp he
    refine ⟨tokens, phrase, htokens, ?_, hderives⟩
    exact (hderives.isSome_tree?_iff (wellCut_tokenize htokens)).mp (by rw [htree]; rfl)
  · intro h
    obtain ⟨tokens, phrase, htokens, hadmissible, hderives⟩ := h
    obtain ⟨tree, htree⟩ := Option.isSome_iff_exists.mp
      ((hderives.isSome_tree?_iff (wellCut_tokenize htokens)).mpr hadmissible)
    exact ⟨⟨source, tree⟩, compile_eq_ok_iff.mpr ⟨rfl, tokens, htokens, phrase, hderives, htree⟩⟩
  · intro he
    obtain ⟨hsource, tokens, htokens, phrase, hderives, htree⟩ := compile_eq_ok_iff.mp he
    refine ⟨hsource, tokens, phrase, htokens, ?_, hderives, htree⟩
    exact (hderives.isSome_tree?_iff (wellCut_tokenize htokens)).mp (by rw [htree]; rfl)
  · intro h
    obtain ⟨hsource, tokens, phrase, htokens, _, hderives, htree⟩ := h
    exact compile_eq_ok_iff.mpr ⟨hsource, tokens, htokens, phrase, hderives, htree⟩

end ReactiveTemplate.Expression
