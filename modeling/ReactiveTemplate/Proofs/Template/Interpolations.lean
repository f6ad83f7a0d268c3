import Mathlib
import ReactiveTemplate.Proofs.Expression.Lexing
import ReactiveTemplate.Proofs.Render.Steps
import ReactiveTemplate.Proofs.Template.Caching

/-!
# Texts and their parts

A text is cut at the first opening pair of braces that a closing pair follows, and the rest is cut in the same
way. So the parts, written down again, are the text; no part holds a pair of braces that should have cut it; and
what is rendered is the text with its expressions replaced by what their values look like.
-/

namespace ReactiveTemplate

open Text Directive

/-! ### The first place of a text -/

namespace Text

variable {sought cs before behind : List Char}

/-- What is not found is not there. -/
theorem not_infix_of_cutAt?_none (h : cutAt? sought cs = none) : ¬sought <:+: cs := by
  induction cs with
  | nil =>
    intro hinfix
    rw [List.infix_nil.mp hinfix] at h
    cases h
  | cons c cs ih =>
    rw [cutAt?] at h
    split at h
    · cases h
    · next hprefix =>
      rw [List.infix_cons_iff, not_or]
      exact ⟨fun hpre => hprefix (List.isPrefixOf_iff_prefix.mpr hpre), ih (Option.map_eq_none_iff.mp h)⟩

/-- What is found is not there before the place where it is found. -/
theorem not_infix_before (hne : sought ≠ []) (h : cutAt? sought cs = some (before, behind)) :
    ¬sought <:+: before := by
  have hnil : ¬sought <:+: [] := fun hinfix => hne (List.infix_nil.mp hinfix)
  induction cs generalizing before with
  | nil =>
    rw [cutAt?] at h
    split at h
    · cases h
      exact hnil
    · cases h
  | cons c cs ih =>
    rw [cutAt?] at h
    split at h
    · cases h
      exact hnil
    · next hprefix =>
      obtain ⟨⟨more, rest⟩, hcut, heq⟩ := Option.map_eq_some_iff.mp h
      cases heq
      rw [List.infix_cons_iff, not_or]
      refine ⟨fun hpre => hprefix (List.isPrefixOf_iff_prefix.mpr ?_), ih hcut⟩
      rw [eq_of_cutAt? hcut, List.append_assoc, ← List.cons_append]
      exact hpre.trans (List.prefix_append _ _)

/-- What stands behind any place of the text stands behind the first place. -/
theorem suffix_behind {front rest : List Char} (h : cutAt? sought cs = some (before, behind))
    (hcs : cs = front ++ sought ++ rest) : rest <:+ behind := by
  induction cs generalizing before front with
  | nil =>
    obtain ⟨_, rfl⟩ := List.append_eq_nil_iff.mp hcs.symm
    exact List.nil_suffix
  | cons c cs ih =>
    rw [cutAt?] at h
    split at h
    · cases h
      have hrest : rest = (c :: cs).drop (front.length + sought.length) := by
        rw [hcs, ← List.length_append, List.drop_left]
      rw [hrest, Nat.add_comm, ← List.drop_drop]
      exact List.drop_suffix _ _
    · next hprefix =>
      obtain ⟨⟨more, left⟩, hcut, heq⟩ := Option.map_eq_some_iff.mp h
      cases heq
      cases front with
      | nil =>
        refine absurd (List.isPrefixOf_iff_prefix.mpr ?_) hprefix
        rw [hcs, List.nil_append]
        exact List.prefix_append _ _
      | cons d front => exact ih hcut (List.cons.inj hcs).2

end Text

namespace Interpolated

/-! ### Parts -/

/-- An opening pair with a closing pair somewhere behind it. -/
def HasPair (cs : List Char) : Prop :=
  ∃ inside, opening ++ inside ++ closing <:+: cs

/-- A part as it is written in the text. -/
def written : Interpolated Fragment → List Char
  | literal text => text.toList
  | expression f => opening ++ f.text.toList ++ closing

/-- What may stand directly behind a part: no literal stands behind a literal, and no opening pair is in a literal
that an expression stands behind. -/
def Precedes : Interpolated Fragment → Interpolated Fragment → Prop
  | literal _, literal _ => False
  | literal text, expression _ => ¬opening <:+: text.toList
  | expression _, _ => True

/-- The parts of characters that begin at `start`. -/
inductive Cut : (start : Nat) → List Char → List (Interpolated Fragment) → Prop where
  | rest (start : Nat) {cs : List Char} (h : ¬HasPair cs) : Cut start cs (literals cs)
  | pair {start : Nat} {before inner behind : List Char} {parts : List (Interpolated Fragment)}
      (hbefore : ¬opening <:+: before) (hinner : ¬closing <:+: inner)
      (h : Cut (start + byteSize before + byteSize opening + byteSize inner + byteSize closing) behind parts) :
      Cut start (before ++ opening ++ (inner ++ closing ++ behind)) (literals before ++
        .expression ⟨String.ofList inner, .covering (start + byteSize before + byteSize opening) inner⟩ :: parts)

/-- Without an opening pair there is no pair. -/
theorem not_hasPair_of_no_opening {cs : List Char} (h : ¬opening <:+: cs) : ¬HasPair cs := by
  rintro ⟨inside, hpair⟩
  rw [List.append_assoc] at hpair
  exact h ((List.prefix_append _ _).isInfix.trans hpair)

/-- Without a closing pair behind the first opening pair there is none. -/
theorem not_hasPair_of_no_closing {cs before inside : List Char} (h : cutAt? opening cs = some (before, inside))
    (hclosing : ¬closing <:+: inside) : ¬HasPair cs := by
  rintro ⟨inner, front, behind, hcs⟩
  have hcs' : cs = front ++ opening ++ (inner ++ closing ++ behind) := by
    simp only [← hcs, List.append_assoc]
  refine hclosing (List.IsInfix.trans ?_ (suffix_behind h hcs').isInfix)
  exact ⟨inner, behind, rfl⟩

/-- Characters are cut into their parts. -/
theorem cut_split (start : Nat) (cs : List Char) : Cut start cs (split start cs) := by
  induction start, cs using split.induct with
  | case1 start cs hopening =>
    rw [split]
    split
    · exact .rest start (not_hasPair_of_no_opening (not_infix_of_cutAt?_none hopening))
    · next h => cases hopening.symm.trans h
  | case2 start cs before inside hopening hclosing =>
    rw [split]
    split
    · next h => cases hopening.symm.trans h
    · next h =>
      cases hopening.symm.trans h
      split
      · exact .rest start (not_hasPair_of_no_closing hopening (not_infix_of_cutAt?_none hclosing))
      · next h => cases hclosing.symm.trans h
  | case3 start cs before inside hopening inner behind hclosing place _ _ ih =>
    rw [split]
    split
    · next h => cases hopening.symm.trans h
    · next h =>
      cases hopening.symm.trans h
      split
      · next h => cases hclosing.symm.trans h
      · next h =>
        cases hclosing.symm.trans h
        have hpair := Cut.pair (not_infix_before (by simp [opening]) hopening)
          (not_infix_before (by simp [closing]) hclosing) ih
        rwa [← eq_of_cutAt? hclosing, ← eq_of_cutAt? hopening] at hpair

/-- A literal is made of what is not empty. -/
theorem mem_literals {cs : List Char} {part : Interpolated Fragment} :
    part ∈ literals cs ↔ cs ≠ [] ∧ part = .literal (String.ofList cs) := by
  cases cs <;> simp [literals]

/-- A literal is written as it is. -/
theorem flatMap_written_literals (cs : List Char) : (literals cs).flatMap written = cs := by
  cases cs <;> simp [literals, written]

namespace Cut

variable {start : Nat} {cs : List Char} {parts : List (Interpolated Fragment)}

/-- The parts are written as the text. -/
theorem flatMap_written (h : Cut start cs parts) : parts.flatMap written = cs := by
  induction h with
  | rest _ _ => exact flatMap_written_literals _
  | pair _ _ _ ih =>
    rw [List.flatMap_append, List.flatMap_cons, ih, flatMap_written_literals, written, String.toList_ofList]
    simp only [List.append_assoc]

/-- No literal is empty. -/
theorem literal_ne (h : Cut start cs parts) {text : String} (hmem : .literal text ∈ parts) : text ≠ "" := by
  have hsome {cs : List Char} (hmem : .literal text ∈ literals cs) : text ≠ "" := by
    obtain ⟨hne, heq⟩ := mem_literals.mp hmem
    cases heq
    simpa using hne
  induction h with
  | rest _ _ => exact hsome hmem
  | pair _ _ _ ih =>
    rcases List.mem_append.mp hmem with hmem | hmem
    · exact hsome hmem
    · exact ih (by simpa using hmem)

/-- No expression holds a closing pair. -/
theorem no_closing (h : Cut start cs parts) {f : Fragment} (hmem : .expression f ∈ parts) :
    ¬closing <:+: f.text.toList := by
  induction h with
  | rest _ _ =>
    obtain ⟨_, heq⟩ := mem_literals.mp hmem
    cases heq
  | @pair start before inner behind parts _ hinner _ ih =>
    rcases List.mem_append.mp hmem with hmem | hmem
    · obtain ⟨_, heq⟩ := mem_literals.mp hmem
      cases heq
    · rcases List.mem_cons.mp hmem with heq | hmem
      · cases heq
        rwa [String.toList_ofList]
      · exact ih hmem

/-- Each part may precede the next one. -/
theorem isChain (h : Cut start cs parts) : parts.IsChain Precedes := by
  induction h with
  | @rest start cs _ => cases cs <;> simp [literals]
  | @pair start before inner behind parts hbefore _ _ ih =>
    have hbehind (f : Fragment) : (.expression f :: parts).IsChain Precedes :=
      List.isChain_cons.mpr ⟨fun _ _ => trivial, ih⟩
    cases before with
    | nil => exact hbehind _
    | cons c before =>
      refine List.isChain_cons.mpr ⟨?_, hbehind _⟩
      intro part hpart
      cases hpart
      rwa [Precedes, String.toList_ofList]

/-- The last literal has no pair. -/
theorem last_literal (h : Cut start cs parts) {text : String} (hlast : parts.getLast? = some (.literal text)) :
    ¬HasPair text.toList := by
  induction h with
  | rest _ hnone =>
    obtain ⟨_, heq⟩ := mem_literals.mp (List.mem_of_getLast? hlast)
    cases heq
    rwa [String.toList_ofList]
  | @pair start before inner behind parts _ _ _ ih =>
    rw [List.getLast?_append, List.getLast?_cons, Option.some_or, Option.some.injEq] at hlast
    cases hparts : parts.getLast? with
    | none =>
      rw [hparts] at hlast
      cases hlast
    | some part =>
      rw [hparts] at hlast
      exact ih (hparts.trans (congrArg some hlast))

/-- Without a pair there are no expressions. -/
theorem eq_literals (h : Cut start cs parts) (hnone : ¬HasPair cs) : parts = literals cs := by
  cases h with
  | rest => rfl
  | @pair _ before inner behind _ _ _ _ =>
    refine absurd ⟨inner, before, behind, ?_⟩ hnone
    simp only [List.append_assoc]

end Cut

/-- The parts of a text. -/
structure PartsOf (text : String) (parts : List (Interpolated Fragment)) : Prop where
  /-- Written down again they are the text. -/
  written : parts.flatMap written = text.toList
  /-- No literal is empty. -/
  literal_ne : ∀ text, .literal text ∈ parts → text ≠ ""
  /-- No literal stands behind a literal, and none in front of an expression has an opening pair. -/
  isChain : parts.IsChain Precedes
  /-- No expression has a closing pair. -/
  no_closing : ∀ f, .expression f ∈ parts → ¬closing <:+: f.text.toList
  /-- If the last part is a literal, it has no opening pair with a closing pair behind it. -/
  last_literal : ∀ text, parts.getLast? = some (.literal text) → ¬HasPair text.toList

/-- A text is cut into its parts. -/
theorem partsOf_ofText (text : String) : PartsOf text (ofText text) where
  written := (cut_split 0 text.toList).flatMap_written
  literal_ne _ := (cut_split 0 text.toList).literal_ne
  isChain := (cut_split 0 text.toList).isChain
  no_closing _ := (cut_split 0 text.toList).no_closing
  last_literal _ := (cut_split 0 text.toList).last_literal

/-! ### What is rendered -/

section Rendering

variable (resolver : Resolver) (scope : Scope)

/-- What a part looks like: a literal like itself, an expression like its value. -/
inductive Shows : Interpolated Fragment → String → Prop where
  | literal (text : String) : Shows (.literal text) text
  | expression {f : Fragment} {e : Expression} {value : Json.Value} (hcompile : Expression.compile f.text = .ok e)
      (heval : e.eval scope resolver = .ok value) : Shows (.expression f) value.display

/-- What a compiled part looks like. -/
inductive ShowsCompiled : Interpolated Expression → String → Prop where
  | literal (text : String) : ShowsCompiled (.literal text) text
  | expression {e : Expression} {value : Json.Value} (heval : e.eval scope resolver = .ok value) :
      ShowsCompiled (.expression e) value.display

/-- The text of compiled parts is what they look like, one after the other. -/
theorem textIn_eq_ok_iff {parts : List (Interpolated Expression)} {shown : String} :
    textIn resolver scope parts = .ok shown ↔
      ∃ pieces, List.Forall₂ (ShowsCompiled resolver scope) parts pieces ∧ shown = String.join pieces := by
  constructor
  · intro h
    induction parts generalizing shown with
    | nil =>
      cases h
      exact ⟨[], .nil, rfl⟩
    | cons part parts ih =>
      cases part with
      | literal text =>
        obtain ⟨more, hmore, heq⟩ := ok_of_bind h
        cases heq
        obtain ⟨pieces, hpieces, rfl⟩ := ih hmore
        exact ⟨text :: pieces, .cons (.literal text) hpieces, String.join_cons.symm⟩
      | expression e =>
        obtain ⟨value, hvalue, hrest⟩ := ok_of_bind h
        obtain ⟨more, hmore, heq⟩ := ok_of_bind hrest
        cases heq
        obtain ⟨pieces, hpieces, rfl⟩ := ih hmore
        rw [Expression.valueIn, mapError_eq_ok_iff] at hvalue
        exact ⟨value.display :: pieces, .cons (.expression hvalue) hpieces, String.join_cons.symm⟩
  · rintro ⟨pieces, hpieces, rfl⟩
    induction hpieces with
    | nil => rfl
    | cons hfirst _ ih =>
      cases hfirst with
      | literal text =>
        rw [textIn, ih, String.join_cons]
        rfl
      | expression heval =>
        rw [textIn, Expression.valueIn, heval, ih, String.join_cons]
        rfl

/-- A part looks as it does when it is compiled. -/
theorem shows_iff {whole : String} {part : Interpolated Fragment} {piece : String} :
    Shows resolver scope part piece ↔
      ∃ compiled, compilePart whole part = .ok compiled ∧ ShowsCompiled resolver scope compiled piece := by
  constructor
  · intro h
    cases h with
    | literal => exact ⟨_, rfl, .literal _⟩
    | expression hcompile heval =>
      refine ⟨_, ?_, .expression heval⟩
      rw [compilePart, compileFragment, hcompile]
      rfl
  · rintro ⟨compiled, hcompiled, hshows⟩
    cases part with
    | literal text =>
      cases hcompiled
      cases hshows
      exact .literal _
    | expression f =>
      obtain ⟨e, hfragment, heq⟩ := ok_of_bind hcompiled
      cases heq
      cases hshows with
      | expression heval => exact .expression (mapError_eq_ok_iff.mp hfragment) heval

/-- Parts look as they do when they are compiled. -/
theorem forall₂_shows_iff (whole : String) {parts : List (Interpolated Fragment)} {pieces : List String} :
    List.Forall₂ (Shows resolver scope) parts pieces ↔
      ∃ compiled, List.Forall₂ (fun part c => compilePart whole part = .ok c) parts compiled ∧
        List.Forall₂ (ShowsCompiled resolver scope) compiled pieces := by
  constructor
  · intro h
    induction h with
    | nil => exact ⟨[], .nil, .nil⟩
    | cons hfirst _ ih =>
      obtain ⟨c, hcompile, hshows⟩ := (shows_iff resolver scope).mp hfirst
      obtain ⟨cs, hcompiles, hshowsAll⟩ := ih
      exact ⟨c :: cs, .cons hcompile hcompiles, .cons hshows hshowsAll⟩
  · rintro ⟨compiled, hcompiles, hshows⟩
    induction hcompiles generalizing pieces with
    | nil =>
      cases hshows
      exact .nil
    | cons hfirst _ ih =>
      cases hshows with
      | cons hshow hmore => exact .cons ((shows_iff resolver scope).mpr ⟨_, hfirst, hshow⟩) (ih hmore)

/-- A text looks like its parts, one after the other. -/
theorem compileParts_textIn_iff {text shown : String} :
    (∃ parts, compileParts text = .ok parts ∧ textIn resolver scope parts = .ok shown) ↔
      ∃ pieces, List.Forall₂ (Shows resolver scope) (ofText text) pieces ∧ shown = String.join pieces := by
  simp only [compileParts, mapM_eq_ok_iff, textIn_eq_ok_iff, forall₂_shows_iff resolver scope text]
  constructor
  · rintro ⟨parts, hparts, pieces, hpieces, rfl⟩
    exact ⟨pieces, ⟨parts, hparts, hpieces⟩, rfl⟩
  · rintro ⟨pieces, ⟨parts, hparts, hpieces⟩, rfl⟩
    exact ⟨parts, hparts, pieces, hpieces, rfl⟩

end Rendering

/-- A text compiles with a cache, and its parts are rendered in a scope as `shown`. -/
def RendersAs {L : Type} (cache : CompileCache) (s : Surroundings L) (scope : Scope) (st : RenderState L)
    (text shown : String) : Prop :=
  ∃ parts after, (Compile.parts text).run.run cache = (.ok parts, after) ∧
    ((Render.interpolate s scope parts).outcome st).1 = .ok shown

/-- Nothing of a text is lost. It is cut into literals and expressions that are the text when they are written down
again, no pair of braces is left that should have cut it, and it is rendered as its literals with each expression
replaced by what its value looks like. Without a pair of braces it is rendered as itself. -/
theorem text_cut_and_rendered {L : Type} (text : String) :
    PartsOf text (ofText text) ∧ ∀ {cache : CompileCache}, cache.Reached → ∀ (s : Surroundings L) (scope : Scope)
      (st : RenderState L), (¬HasPair text.toList → RendersAs cache s scope st text text) ∧
        ∀ shown, RendersAs cache s scope st text shown ↔
          ∃ pieces, List.Forall₂ (Shows s.resolver scope) (ofText text) pieces ∧ shown = String.join pieces := by
  refine ⟨partsOf_ofText text, ?_⟩
  intro cache hcache s scope st
  have hrenders (shown : String) : RendersAs cache s scope st text shown ↔
      ∃ pieces, List.Forall₂ (Shows s.resolver scope) (ofText text) pieces ∧ shown = String.join pieces := by
    rw [← compileParts_textIn_iff, ← (Compile.answers_parts text cache hcache.faithful).1]
    simp only [RendersAs, (Render.quiet_interpolate s scope _ st).1]
    constructor
    · rintro ⟨parts, after, hrun, hshown⟩
      exact ⟨parts, congrArg Prod.fst hrun, hshown⟩
    · rintro ⟨parts, hrun, hshown⟩
      exact ⟨parts, _, Prod.ext hrun rfl, hshown⟩
  refine ⟨fun hnone => (hrenders text).mpr ?_, hrenders⟩
  rw [ofText, (cut_split 0 text.toList).eq_literals hnone]
  by_cases hempty : text.toList = []
  · rw [hempty]
    exact ⟨[], .nil, String.toList_eq_nil_iff.mp hempty⟩
  · rw [literals, if_neg (by simpa using hempty), String.ofList_toList]
    exact ⟨[text], .cons (.literal text) .nil, by simp⟩

/-- A closing pair of braces in front of an opening pair. -/
def crossed : String :=
  "\x7d\x7d \x7b\x7b a"

/-- An expression with a brace behind its closing pair, and an opening pair that is never closed. -/
def nested : String :=
  "a\x7b\x7b2\x7d\x7d\x7d \x7b\x7b"

/-- The one text is rendered as itself, and in the other the expression is replaced. -/
theorem text_cut_and_rendered_braces :
    let s : Surroundings Unit := ⟨fun _ => none, fun _ => ()⟩
    let st : RenderState Unit := ⟨.empty, [], []⟩
    RendersAs .empty s .empty st crossed crossed ∧ RendersAs .empty s .empty st nested "a2\x7d \x7b\x7b" := by
  intro s st
  constructor
  · have hcut : cutAt? opening crossed.toList = some ("\x7d\x7d ".toList, " a".toList) := rfl
    have hnone : ¬HasPair crossed.toList :=
      not_hasPair_of_no_closing hcut (not_infix_of_cutAt?_none rfl)
    exact ((text_cut_and_rendered crossed).2 .empty s .empty st).1 hnone
  · have hparts : ofText nested = [.literal "a", .expression ⟨"2", ⟨3, 4⟩⟩, .literal "\x7d \x7b\x7b"] := by
      decide +kernel
    have hlexeme : Expression.Token.Lexeme .value ['2'] := .value (by simp) (by simp [Expression.isValueChar])
    have hcompile : Expression.compile "2" = .ok ⟨"2", .constant (.number (.integer 2))⟩ :=
      (Expression.compile_eq_ok_iff_lexes 0).mpr
        ⟨_, Expression.lexes_lexeme hlexeme 0, (Expression.Spells.word (Or.inl rfl) rfl).operand⟩
    refine (((text_cut_and_rendered nested).2 .empty s .empty st).2 _).mpr ⟨["a", "2", "\x7d \x7b\x7b"], ?_, rfl⟩
    rw [hparts]
    exact .cons (.literal _) (.cons (.expression (f := ⟨"2", ⟨3, 4⟩⟩) hcompile rfl) (.cons (.literal _) .nil))

end Interpolated

end ReactiveTemplate
