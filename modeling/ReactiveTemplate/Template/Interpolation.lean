import ReactiveTemplate.Directive.Fragment
import ReactiveTemplate.Text.Search

/-!
# Interpolation

Text is cut into literals and the expressions between `{{` and the next `}}`. An opening pair that
is never closed is literal text.
-/

namespace ReactiveTemplate

open Text Directive

namespace Text

theorem eq_of_cutAt? {sought cs before behind : List Char}
    (h : cutAt? sought cs = some (before, behind)) :
    cs = before ++ sought ++ behind := by
  induction cs generalizing before behind with
  | nil =>
    simp only [cutAt?] at h
    split at h
    · simp_all
    · simp at h
  | cons c cs ih =>
    simp only [cutAt?] at h
    split at h
    · rename_i hp
      simp only [Option.some.injEq, Prod.mk.injEq] at h
      obtain ⟨rfl, rfl⟩ := h
      simpa using (List.prefix_iff_eq_append.1 (List.isPrefixOf_iff_prefix.1 hp)).symm
    · simp only [Option.map_eq_some_iff, Prod.mk.injEq] at h
      obtain ⟨⟨b, r⟩, hcut, hb, hr⟩ := h
      simp only at hb hr
      subst hb hr
      simp [ih hcut]

theorem length_behind_of_cutAt? {sought cs before behind : List Char}
    (h : cutAt? sought cs = some (before, behind)) : sought.length + behind.length ≤ cs.length := by
  rw [eq_of_cutAt? h]
  simp only [List.length_append]
  omega

end Text

/-- A part of a text: a literal, or an expression with its place and with blanks around it kept. -/
inductive Interpolated (ε : Type) where
  | literal (text : String)
  | expression (value : ε)
  deriving DecidableEq, Repr

namespace Interpolated

/-- The pair of braces that opens an expression. -/
def opening : List Char := ['{', '{']

/-- The pair of braces that closes an expression. -/
def closing : List Char := ['}', '}']

/-- A literal, unless it is empty. -/
def literals (cs : List Char) : List (Interpolated Fragment) :=
  if cs.isEmpty then [] else [.literal (String.ofList cs)]

/-- The parts of characters that begin at `start`. -/
def split (start : Nat) (text : List Char) : List (Interpolated Fragment) :=
  match h₁ : cutAt? opening text with
  | none => literals text
  | some (before, inside) =>
    match h₂ : cutAt? closing inside with
    | none => literals text
    | some (inner, behind) =>
      let place := start + byteSize before + byteSize opening
      have := length_behind_of_cutAt? h₁
      have := length_behind_of_cutAt? h₂
      literals before ++ .expression ⟨String.ofList inner, .covering place inner⟩ ::
        split (place + byteSize inner + byteSize closing) behind
termination_by text.length
decreasing_by
  simp only [opening, closing, List.length_cons, List.length_nil] at *
  omega

/-- The parts of a text. -/
def ofText (text : String) : List (Interpolated Fragment) :=
  split 0 text.toList

end Interpolated

end ReactiveTemplate
