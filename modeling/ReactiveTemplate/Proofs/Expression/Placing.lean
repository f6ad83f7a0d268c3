import Mathlib
import ReactiveTemplate.Proofs.Expression.Lexing

/-!
# Trees and faults do not depend on places

The stack takes tokens with their places, which it needs for the places of its faults. What tree comes of the
tokens, or which fault, depends on their words only: two stacks that are alike but for places stay so.
-/

namespace ReactiveTemplate.Expression

open ReactiveTemplate.Text

/-- Two levels with the same trees and operators. -/
inductive Content.Alike : Content → Content → Prop
  | empty : Alike .empty .empty
  | operand {a a' : Operand} (h : a.tree = a'.tree) : Alike (.operand a) (.operand a')
  | pending {left left' : Operand} (h : left.tree = left'.tree) (o : Operator) :
      Alike (.pending left o) (.pending left' o)
  | broken (start start' : Nat) (endsInOperator : Bool) :
      Alike (.broken start endsInOperator) (.broken start' endsInOperator)

/-- Two stacks with the same levels but for places. -/
inductive Stack.Alike : Stack → Stack → Prop
  | whole {content content' : Content} (h : content.Alike content') : Alike (.whole content) (.whole content')
  | group {openedAt openedAt' : Nat} {content content' : Content} {outer outer' : Stack}
      (h : content.Alike content') (houter : Alike outer outer') :
      Alike (.group openedAt content outer) (.group openedAt' content' outer')
  | negation {openedAt openedAt' : Nat} {outer outer' : Stack} (houter : Alike outer outer') :
      Alike (.negation openedAt outer) (.negation openedAt' outer')

/-- The same fault, or results that are related. -/
def SameButPlace {α β : Type} (R : α → β → Prop) (m : Except Located α) (m' : Except Located β) : Prop :=
  SameOutcome R (m.mapError Located.fault) (m'.mapError Located.fault)

namespace SameButPlace

variable {α β γ δ : Type} {R : α → β → Prop} {S : γ → δ → Prop}

/-- Both give a result. -/
theorem ok {a : α} {b : β} (h : R a b) : SameButPlace R (.ok a) (.ok b) :=
  SameOutcome.ok h

/-- Both have a fault. -/
theorem error (fault : CompileFault) (span span' : Span) :
    SameButPlace R (.error ⟨fault, span⟩) (.error ⟨fault, span'⟩) :=
  SameOutcome.error fault

/-- A computation in two steps. -/
theorem bind {m : Except Located α} {m' : Except Located β} {f : α → Except Located γ} {f' : β → Except Located δ}
    (hm : SameButPlace R m m') (hf : ∀ a b, R a b → SameButPlace S (f a) (f' b)) :
    SameButPlace S (m >>= f) (m' >>= f') := by
  have hsteps {ε ε' α β : Type} (g : ε → ε') (m : Except ε α) (f : α → Except ε β) :
      (m >>= f).mapError g = m.mapError g >>= fun a => (f a).mapError g := by
    cases m <;> rfl
  rw [SameButPlace, hsteps, hsteps]
  exact SameOutcome.bind hm hf

end SameButPlace

section Steps

variable {content content' : Content} {stack stack' : Stack} {added added' : Operand} {t t' : Token}

/-- A level with one more operand. -/
theorem Content.Alike.addOperand (h : content.Alike content') (hadded : added.tree = added'.tree) :
    SameButPlace Content.Alike (content.addOperand added) (content'.addOperand added') := by
  cases h with
  | empty => exact .ok (.operand hadded)
  | operand _ => exact .ok (.broken _ _ false)
  | pending hleft o => exact .ok (.operand (by rw [hleft, hadded]))
  | broken start start' endsInOperator =>
    cases endsInOperator with
    | false => exact .ok (.broken start start' false)
    | true => exact .error _ _ _

/-- A level with one more operator. -/
theorem Content.Alike.addOperator (h : content.Alike content') (o : Operator) (span span' : Span) :
    SameButPlace Content.Alike (content.addOperator o span) (content'.addOperator o span') := by
  cases h with
  | empty => exact .ok (.broken _ _ true)
  | operand hleft => exact .ok (.pending hleft o)
  | pending _ _ => exact .error _ _ _
  | broken start start' endsInOperator =>
    cases endsInOperator with
    | false => exact .ok (.broken start start' true)
    | true => exact .error _ _ _

/-- Levels that are alike are the same operand or none. -/
theorem Content.Alike.single? (h : content.Alike content') : content.single? = content'.single? := by
  cases h with
  | operand htree => exact congrArg some htree
  | _ => rfl

/-- A stack with one more operand. -/
theorem Stack.Alike.addOperand (h : stack.Alike stack') (hadded : added.tree = added'.tree) :
    SameButPlace Stack.Alike (stack.addOperand added) (stack'.addOperand added') := by
  induction h generalizing added added' with
  | whole hcontent => exact (hcontent.addOperand hadded).bind fun _ _ h => .ok (.whole h)
  | group hcontent houter _ => exact (hcontent.addOperand hadded).bind fun _ _ h => .ok (.group h houter)
  | negation _ ih => exact ih (by rw [hadded])

/-- A stack with one more operator. -/
theorem Stack.Alike.addOperator (h : stack.Alike stack') (o : Operator) (span span' : Span) :
    SameButPlace Stack.Alike (stack.addOperator o span) (stack'.addOperator o span') := by
  cases h with
  | whole hcontent => exact (hcontent.addOperator o span span').bind fun _ _ h => .ok (.whole h)
  | group hcontent houter => exact (hcontent.addOperator o span span').bind fun _ _ h => .ok (.group h houter)
  | negation _ => exact .error _ _ _

/-- A stack after a closing parenthesis. -/
theorem Stack.Alike.close (h : stack.Alike stack') (span span' : Span) :
    SameButPlace Stack.Alike (stack.close span) (stack'.close span') := by
  cases h with
  | whole _ => exact .error _ _ _
  | group hcontent houter =>
    rw [Stack.close, Stack.close, hcontent.single?]
    split
    · exact houter.addOperand rfl
    · exact .error _ _ _
  | negation _ => exact .error _ _ _

/-- A stack after one more token. -/
theorem Stack.Alike.take (h : stack.Alike stack') (hword : t.word = t'.word) :
    SameButPlace Stack.Alike (stack.take t) (stack'.take t') := by
  obtain ⟨kind, text, span⟩ := t
  obtain ⟨kind', text', span'⟩ := t'
  cases hword
  cases kind with
  | mark =>
    simp only [Stack.take]
    split
    · exact .ok (.group .empty h)
    · exact h.close span span'
  | operator =>
    simp only [Stack.take]
    split
    · exact .ok (.negation h)
    · split
      · exact h.addOperator _ span span'
      · exact .error _ _ _
  | string => exact h.addOperand rfl
  | value =>
    simp only [Stack.take]
    split
    · exact h.addOperand rfl
    · exact .error _ _ _

/-- A stack after more tokens. -/
theorem Stack.Alike.takeAll {tokens tokens' : List Token} (h : stack.Alike stack')
    (hwords : tokens.map Token.word = tokens'.map Token.word) :
    SameButPlace Stack.Alike (tokens.foldlM Stack.take stack) (tokens'.foldlM Stack.take stack') := by
  induction tokens generalizing stack stack' tokens' with
  | nil =>
    obtain rfl : tokens' = [] := List.map_eq_nil_iff.mp hwords.symm
    exact .ok h
  | cons t tokens ih =>
    obtain ⟨t', rest, rfl, hword, hrest⟩ := List.map_eq_cons_iff.mp hwords.symm
    rw [List.foldlM_cons, List.foldlM_cons]
    exact (h.take hword.symm).bind fun _ _ hnext => ih hnext hrest.symm

/-- The end of the tokens. -/
theorem Stack.Alike.finish (h : stack.Alike stack') (stop stop' : Nat) :
    SameButPlace Eq (stack.finish stop) (stack'.finish stop') := by
  cases h with
  | whole hcontent =>
    rw [Stack.finish, Stack.finish, hcontent.single?]
    split
    · exact .ok rfl
    · exact .error _ _ _
  | group _ _ => exact .error _ _ _
  | negation _ => exact .error _ _ _

end Steps

/-- What tree comes of tokens, or which fault, depends on their words. -/
theorem treeOf_of_words {tokens tokens' : List Token} (hwords : tokens.map Token.word = tokens'.map Token.word)
    (stop stop' : Nat) : SameButPlace Eq (treeOf stop tokens) (treeOf stop' tokens') := by
  have hempty : tokens.isEmpty = tokens'.isEmpty := by
    rw [← List.isEmpty_map (f := Token.word), hwords, List.isEmpty_map]
  rw [treeOf, treeOf, hempty]
  split
  · exact .error _ _ _
  · have hstart : Stack.Alike (.whole .empty) (.whole .empty) := .whole .empty
    exact (hstart.takeAll hwords).bind fun _ _ h => h.finish stop stop'

end ReactiveTemplate.Expression
