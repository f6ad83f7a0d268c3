import Mathlib
import ReactiveTemplate.Proofs.Expression.Scanning

/-!
# Where the errors of expressions lie

The stack remembers where its levels, operands and broken sequences begin. These are places of the source, none
behind the tokens that have been taken, so a span from one of them to the end of the next token, or of the
source, lies within the source. All errors have such spans, or those of single tokens.
-/

namespace ReactiveTemplate.Expression

open ReactiveTemplate.Text

variable {whole : List Char}

/-- The places that a level remembers. -/
def Content.starts : Content → List Nat
  | .empty => []
  | .operand only => [only.span.start]
  | .pending left _ => [left.span.start]
  | .broken start _ => [start]

/-- The places that a stack remembers. -/
def Stack.starts : Stack → List Nat
  | .whole content => content.starts
  | .group openedAt content outer => openedAt :: (content.starts ++ outer.starts)
  | .negation openedAt outer => openedAt :: outer.starts

/-- All are places of a text, and none is behind `limit`. -/
def PlacesUpTo (whole : List Char) (limit : Nat) (starts : List Nat) : Prop :=
  ∀ n ∈ starts, IsPlace whole n ∧ n ≤ limit

/-- A step whose error lies within a text, and whose result is of some kind. -/
abbrev LiesWell {α : Type} (whole : List Char) (Q : α → Prop) : Except Located α → Prop :=
  Yields (fun e => e.span.Within whole) Q

section Levels

variable {limit limit' n : Nat} {starts starts' : List Nat}

/-- Nothing is behind a larger limit. -/
theorem PlacesUpTo.mono (h : PlacesUpTo whole limit starts) (hle : limit ≤ limit') :
    PlacesUpTo whole limit' starts :=
  fun n hn => ⟨(h n hn).1, (h n hn).2.trans hle⟩

/-- The places of one and of others. -/
theorem placesUpTo_append : PlacesUpTo whole limit (starts ++ starts') ↔
    PlacesUpTo whole limit starts ∧ PlacesUpTo whole limit starts' :=
  List.forall_mem_append

/-- A place and others. -/
theorem placesUpTo_cons : PlacesUpTo whole limit (n :: starts) ↔
    (IsPlace whole n ∧ n ≤ limit) ∧ PlacesUpTo whole limit starts :=
  List.forall_mem_cons

/-- A single place. -/
theorem placesUpTo_singleton : PlacesUpTo whole limit [n] ↔ IsPlace whole n ∧ n ≤ limit :=
  List.forall_mem_singleton

variable {content : Content} {stack : Stack} {span : Span}

/-- From a place on, up to the end of a span behind it. -/
theorem within_of_place (hspan : span.Within whole) (hn : IsPlace whole n) (hle : n ≤ span.stop) :
    Span.Within ⟨n, span.stop⟩ whole :=
  ⟨hn, hspan.stop, hle⟩

/-- A level with one more operand. -/
theorem Content.addOperand_liesWell (h : PlacesUpTo whole limit content.starts) (hspan : span.Within whole)
    (hle : limit ≤ span.stop) (tree : Tree) :
    LiesWell whole (fun content => PlacesUpTo whole span.stop content.starts) (content.addOperand ⟨tree, span⟩) := by
  cases content with
  | empty => exact .ok (placesUpTo_singleton.mpr ⟨hspan.start, hspan.ordered⟩)
  | operand first => exact .ok (h.mono hle)
  | pending left o => exact .ok (h.mono hle)
  | broken start endsInOperator =>
    cases endsInOperator with
    | false => exact .ok (h.mono hle)
    | true =>
      obtain ⟨hstart, hbefore⟩ := placesUpTo_singleton.mp h
      exact .error (within_of_place hspan hstart (hbefore.trans hle))

/-- A level with one more operator. -/
theorem Content.addOperator_liesWell (h : PlacesUpTo whole limit content.starts) (hspan : span.Within whole)
    (hle : limit ≤ span.stop) (o : Operator) :
    LiesWell whole (fun content => PlacesUpTo whole span.stop content.starts) (content.addOperator o span) := by
  cases content with
  | empty => exact .ok (placesUpTo_singleton.mpr ⟨hspan.start, hspan.ordered⟩)
  | operand first => exact .ok (h.mono hle)
  | pending left o => exact .error hspan
  | broken start endsInOperator =>
    cases endsInOperator with
    | false => exact .ok (h.mono hle)
    | true => exact .error hspan

/-- The places of a group are its opening parenthesis, those of its content and those around it. -/
theorem PlacesUpTo.of_group {openedAt : Nat} {outer : Stack}
    (h : PlacesUpTo whole limit (Stack.starts (.group openedAt content outer))) :
    (IsPlace whole openedAt ∧ openedAt ≤ limit) ∧ PlacesUpTo whole limit content.starts ∧
      PlacesUpTo whole limit outer.starts :=
  (placesUpTo_cons.mp h).imp_right placesUpTo_append.mp

/-- A group with other content that ends behind it. -/
theorem PlacesUpTo.refill {openedAt : Nat} {content' : Content} {outer : Stack}
    (h : PlacesUpTo whole limit (Stack.starts (.group openedAt content outer))) (hle : limit ≤ limit')
    (hcontent : PlacesUpTo whole limit' content'.starts) :
    PlacesUpTo whole limit' (Stack.starts (.group openedAt content' outer)) := by
  obtain ⟨⟨hopened, hbefore⟩, _, houter⟩ := h.of_group
  exact placesUpTo_cons.mpr ⟨⟨hopened, hbefore.trans hle⟩, placesUpTo_append.mpr ⟨hcontent, houter.mono hle⟩⟩

/-- A stack with one more operand. -/
theorem Stack.addOperand_liesWell (h : PlacesUpTo whole limit stack.starts) (hspan : span.Within whole)
    (hle : limit ≤ span.stop) (tree : Tree) :
    LiesWell whole (fun stack => PlacesUpTo whole span.stop stack.starts) (stack.addOperand ⟨tree, span⟩) := by
  induction stack generalizing tree span with
  | whole content => exact (Content.addOperand_liesWell h hspan hle tree).bind fun _ h => .ok h
  | group openedAt content outer _ =>
    exact (Content.addOperand_liesWell h.of_group.2.1 hspan hle tree).bind fun _ hmore =>
      .ok (h.refill hle hmore)
  | negation openedAt outer ih =>
    obtain ⟨⟨hopened, hbefore⟩, houter⟩ := placesUpTo_cons.mp h
    exact ih houter (within_of_place hspan hopened (hbefore.trans hle)) hle _

/-- A stack with one more operator. -/
theorem Stack.addOperator_liesWell (h : PlacesUpTo whole limit stack.starts) (hspan : span.Within whole)
    (hle : limit ≤ span.stop) (o : Operator) :
    LiesWell whole (fun stack => PlacesUpTo whole span.stop stack.starts) (stack.addOperator o span) := by
  cases stack with
  | whole content => exact (Content.addOperator_liesWell h hspan hle o).bind fun _ h => .ok h
  | group openedAt content outer =>
    exact (Content.addOperator_liesWell h.of_group.2.1 hspan hle o).bind fun _ hmore =>
      .ok (h.refill hle hmore)
  | negation openedAt outer => exact .error hspan

/-- A stack after a closing parenthesis. -/
theorem Stack.close_liesWell (h : PlacesUpTo whole limit stack.starts) (hspan : span.Within whole)
    (hle : limit ≤ span.stop) :
    LiesWell whole (fun stack => PlacesUpTo whole span.stop stack.starts) (stack.close span) := by
  cases stack with
  | whole content => exact .error hspan
  | group openedAt content outer =>
    obtain ⟨⟨hopened, hbefore⟩, _, houter⟩ := h.of_group
    have hgroup := within_of_place hspan hopened (hbefore.trans hle)
    rw [Stack.close]
    split
    · exact Stack.addOperand_liesWell houter hgroup hle _
    · exact .error hgroup
  | negation openedAt outer =>
    obtain ⟨⟨hopened, hbefore⟩, _⟩ := placesUpTo_cons.mp h
    exact .error (within_of_place hspan hopened (hbefore.trans hle))

/-- A stack after one more token. -/
theorem Stack.take_liesWell {t : Token} (h : PlacesUpTo whole limit stack.starts) (ht : t.span.Within whole)
    (hle : limit ≤ t.span.start) :
    LiesWell whole (fun stack => PlacesUpTo whole t.span.stop stack.starts) (stack.take t) := by
  have hstop : limit ≤ t.span.stop := hle.trans ht.ordered
  have hopened : PlacesUpTo whole t.span.stop (t.span.start :: stack.starts) :=
    placesUpTo_cons.mpr ⟨⟨ht.start, ht.ordered⟩, h.mono hstop⟩
  rw [Stack.take]
  split
  · split
    · exact .ok hopened
    · exact Stack.close_liesWell h ht hstop
  · split
    · exact .ok hopened
    · split
      · exact Stack.addOperator_liesWell h ht hstop _
      · exact .error ht
  · exact Stack.addOperand_liesWell h ht hstop _
  · split
    · exact Stack.addOperand_liesWell h ht hstop _
    · exact .error ht

/-- A stack after more tokens, which lie one behind the other. -/
theorem Stack.takeAll_liesWell {tokens : List Token} (h : PlacesUpTo whole limit stack.starts)
    (htokens : ∀ t ∈ tokens, t.span.Within whole ∧ limit ≤ t.span.start)
    (hordered : tokens.Pairwise fun t t' => t.span.stop ≤ t'.span.start) :
    LiesWell whole (fun stack => PlacesUpTo whole (byteSize whole) stack.starts) (tokens.foldlM Stack.take stack) := by
  induction tokens generalizing stack limit with
  | nil => exact .ok fun n hn => ⟨(h n hn).1, (h n hn).1.le⟩
  | cons t tokens ih =>
    obtain ⟨⟨ht, hle⟩, hmore⟩ := List.forall_mem_cons.mp htokens
    obtain ⟨hbehind, hrest⟩ := List.pairwise_cons.mp hordered
    rw [List.foldlM_cons]
    exact (Stack.take_liesWell h ht hle).bind fun next hnext =>
      ih hnext (fun t' ht' => ⟨(hmore t' ht').1, hbehind t' ht'⟩) hrest

/-- The end of the tokens. -/
theorem Stack.finish_liesWell (h : PlacesUpTo whole (byteSize whole) stack.starts) :
    LiesWell whole (fun _ => True) (stack.finish (byteSize whole)) := by
  have hspan {n : Nat} (hn : IsPlace whole n) : Span.Within ⟨n, byteSize whole⟩ whole :=
    ⟨hn, isPlace_byteSize whole, hn.le⟩
  cases stack with
  | whole content =>
    rw [Stack.finish]
    split
    · exact .ok trivial
    · exact .error (hspan (isPlace_zero whole))
  | group openedAt content outer => exact .error (hspan (placesUpTo_cons.mp h).1.1)
  | negation openedAt outer => exact .error (hspan (placesUpTo_cons.mp h).1.1)

/-- The errors of tokens lie within their source. -/
theorem treeOf_liesWell {tokens : List Token} (htokens : ∀ t ∈ tokens, t.span.Within whole)
    (hordered : tokens.Pairwise fun t t' => t.span.stop ≤ t'.span.start) :
    LiesWell whole (fun _ => True) (treeOf (byteSize whole) tokens) := by
  rw [treeOf]
  split
  · exact .error ⟨isPlace_zero whole, isPlace_byteSize whole, Nat.zero_le _⟩
  · have hstart : PlacesUpTo whole 0 (Stack.starts (.whole .empty)) := List.forall_mem_nil _
    exact (Stack.takeAll_liesWell hstart (fun t ht => ⟨htokens t ht, Nat.zero_le _⟩) hordered).bind
      fun stack hstack => Stack.finish_liesWell hstack

end Levels

/-! ### Sources -/

/-- A token lies within its source. -/
theorem Token.LiesIn.within {whole : String} {t : Token} (h : t.LiesIn whole) : t.span.Within whole.toList := by
  obtain ⟨before, behind, hwhole, hspan, _⟩ := h
  exact Span.within_iff.mpr ⟨_, before, behind, hwhole, hspan⟩

/-- A fault of the scanner lies within its source. -/
theorem FirstFault.within {cs : List Char} {fault : Located} (h : FirstFault 0 cs fault) :
    fault.span.Within cs := by
  refine Span.within_iff.mpr ?_
  cases h with
  | @stray before behind c _ _ _ => exact ⟨[c], before, behind, by simp, by simp⟩
  | @unclosed before behind quote _ _ _ _ => exact ⟨quote :: behind, before, [], by simp, by simp⟩

/-- The error of a source names that source and lies within it. -/
theorem compile_failsWith (source : String) :
    FailsWith (fun e => e.source = source ∧ e.span.Within source.toList) (compile source) := by
  have hlocated {α : Type} {m : Except Located α} (h : FailsWith (fun e => e.span.Within source.toList) m) :
      FailsWith (fun e => e.source = source ∧ e.span.Within source.toList) (m.mapError (·.inText source)) := by
    intro e he
    obtain ⟨fault, hfault, rfl⟩ := mapError_eq_error_iff.mp he
    exact ⟨rfl, h fault hfault⟩
  refine FailsWith.bind (hlocated fun fault hscan => (firstFault_of_scan hscan).within) fun tokens htokens => ?_
  refine FailsWith.bind (hlocated ?_) fun tree _ => .ok _
  have hlexes : Lexes (byteSize []) source.toList tokens := tokenize_eq_ok_iff.mp htokens
  obtain ⟨hplaces, hordered⟩ := hlexes.places
  have hwithin : ∀ t ∈ tokens, t.span.Within source.toList := fun t ht => by
    simpa using (hplaces t ht).2.1.within
  exact (treeOf_liesWell hwithin hordered).failsWith

end ReactiveTemplate.Expression
