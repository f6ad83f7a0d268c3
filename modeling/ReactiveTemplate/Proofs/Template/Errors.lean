import Mathlib
import ReactiveTemplate.Proofs.Directive.Places
import ReactiveTemplate.Proofs.Expression.Errors

/-!
# What the errors of templates point at

An expression stands alone, or in the value of a directive or in a text. Its error points at the same characters in
both: in the larger text it names that text, and its span is moved to where the expression lies. So every error
of a template that does not refuse a value as a whole covers characters of the text that it names.
-/

namespace ReactiveTemplate

open Text Directive

/-! ### Expressions in larger texts -/

/-- The texts that expressions are read off. -/
inductive Setting where
  | mapping
  | iteration
  | actions
  | text

namespace Setting

/-- The fault of a text that cannot be read. -/
def malformed? : Setting → Option CompileFault
  | mapping => some .malformedMapping
  | iteration => some .malformedIteration
  | actions => some .malformedAction
  | text => none

/-- The expressions of a text. -/
inductive Holds : Setting → String → Fragment → Prop where
  | entry {whole key : String} {f : Fragment} {entries : List (String × Fragment)}
      (h : readMapping whole = .ok entries) (hmem : (key, f) ∈ entries) : Holds .mapping whole f
  | source {whole : String} {header : IterationHeader} (h : readIteration whole = .ok header) :
      Holds .iteration whole header.source
  | assigned {whole target : String} {f : Fragment} {actions : List (Action Fragment Fragment)}
      (h : readActions whole = .ok actions) (hmem : .assign target f ∈ actions) : Holds .actions whole f
  | given {whole method : String} {f : Fragment} {actions : List (Action Fragment Fragment)}
      {arguments : List (Argument Fragment)} (h : readActions whole = .ok actions)
      (hmem : .invoke method arguments ∈ actions) (hargument : .given f ∈ arguments) : Holds .actions whole f
  | interpolated {whole : String} {f : Fragment} (h : .expression f ∈ Interpolated.ofText whole) :
      Holds .text whole f

/-- The expressions of a text lie in it. -/
theorem Holds.liesIn {setting : Setting} {whole : String} {f : Fragment} (h : setting.Holds whole f) :
    f.LiesIn whole := by
  cases h with
  | entry h hmem =>
    rw [readMapping] at h
    split at h
    · next hread =>
      cases h
      exact Mapping.liesIn_of_entries? hread _ hmem
    · cases h
  | source h =>
    rw [readIteration] at h
    split at h
    · next hread =>
      cases h
      exact IterationHeader.liesIn_of_ofText? hread
    · cases h
  | assigned h hmem =>
    rw [readActions] at h
    split at h
    · next hread =>
      cases h
      exact ActionList.liesIn_of_ofText? hread _ hmem
    · cases h
  | given h hmem hargument =>
    rw [readActions] at h
    split at h
    · next hread =>
      cases h
      exact ActionList.liesIn_of_ofText? hread _ hmem f hargument
    · cases h
  | interpolated h =>
    have hcut : Interpolated.Cut (byteSize []) whole.toList (Interpolated.ofText whole) :=
      Interpolated.cut_split 0 whole.toList
    simpa using liesIn_of_cut hcut f h

end Setting

/-- The error of an expression in a larger text: the same fault, in the larger text, and of the same characters. -/
structure Embedded (whole : String) (f : Fragment) (bare e : CompileError) : Prop where
  fault : e.fault = bare.fault
  source : e.source = whole
  covers : ∃ covered, bare.span.Covers f.text.toList covered ∧ e.span.Covers whole.toList covered

/-- An expression that lies in a larger text fails there as it fails alone. -/
theorem embedded_of_liesIn {whole : String} {f : Fragment} {bare : CompileError} (hf : f.LiesIn whole)
    (hbare : Expression.compile f.text = .error bare) :
    ∃ e, compileFragment whole f = .error e ∧ Embedded whole f bare e := by
  refine ⟨_, mapError_eq_error_iff.mpr ⟨bare, hbare, rfl⟩, rfl, rfl, ?_⟩
  obtain ⟨covered, hcovered⟩ := Span.within_iff.mp (Expression.compile_failsWith f.text bare hbare).2
  exact ⟨covered, hcovered, hcovered.shift hf⟩

namespace Setting

/-- What a text with expressions fails with: it cannot be read, or one of its expressions fails. -/
inductive Fails : Setting → String → CompileError → Prop where
  | malformed {setting : Setting} {whole : String} {e : CompileError} (h : setting.malformed? = some e.fault) :
      Fails setting whole e
  | embedded {setting : Setting} {whole : String} {f : Fragment} {bare e : CompileError}
      (hf : setting.Holds whole f) (hbare : Expression.compile f.text = .error bare) (h : Embedded whole f bare e) :
      Fails setting whole e

variable {setting : Setting} {whole : String}

/-- An expression of a text fails as one. -/
theorem Holds.failsWith {f : Fragment} (h : setting.Holds whole f) :
    FailsWith (setting.Fails whole) (compileFragment whole f) := by
  intro e he
  obtain ⟨bare, hbare, _⟩ := mapError_eq_error_iff.mp he
  obtain ⟨e', he', hembedded⟩ := embedded_of_liesIn h.liesIn hbare
  rw [he, Except.error.injEq] at he'
  exact he' ▸ .embedded h hbare hembedded

/-- A mapping fails as one. -/
theorem failsWith_compileMapping (whole : String) : FailsWith (mapping.Fails whole) (compileMapping whole) := by
  refine FailsWith.bind (fun e he => .malformed ?_) fun entries hread => FailsWith.mapM fun entry hmem => ?_
  · rw [readMapping] at he
    split at he <;> cases he
    rfl
  · exact (Holds.failsWith (.entry hread hmem)).bind fun _ _ => .ok _

/-- An iteration fails as one. -/
theorem failsWith_compileIteration (whole : String) :
    FailsWith (iteration.Fails whole) (compileIteration whole) := by
  refine FailsWith.bind (fun e he => .malformed ?_) fun header hread => ?_
  · rw [readIteration] at he
    split at he <;> cases he
    rfl
  · exact (Holds.failsWith (.source hread)).bind fun _ _ => .ok _

/-- A list of actions fails as one. -/
theorem failsWith_compileActions (whole : String) : FailsWith (actions.Fails whole) (compileActions whole) := by
  refine FailsWith.bind (fun e he => .malformed ?_) fun found hread => FailsWith.mapM fun action hmem => ?_
  · rw [readActions] at he
    split at he <;> cases he
    rfl
  · cases action with
    | assign target f => exact (Holds.failsWith (.assigned hread hmem)).bind fun _ _ => .ok _
    | invoke method arguments =>
      refine FailsWith.bind (FailsWith.mapM fun argument hargument => ?_) fun _ _ => .ok _
      cases argument with
      | event => exact .ok _
      | given f => exact (Holds.failsWith (.given hread hmem hargument)).bind fun _ _ => .ok _

/-- A text fails as one. -/
theorem failsWith_compileParts (whole : String) : FailsWith (text.Fails whole) (compileParts whole) := by
  refine FailsWith.mapM fun part hmem => ?_
  cases part with
  | literal _ => exact .ok _
  | expression f => exact (Holds.failsWith (.interpolated hmem)).bind fun _ _ => .ok _

/-- The error of a text that can be read covers characters of it. -/
theorem Fails.within {e : CompileError} (h : setting.Fails whole e) (hread : setting.malformed? ≠ some e.fault) :
    e.source = whole ∧ e.span.Within whole.toList := by
  cases h with
  | malformed h => exact absurd h hread
  | embedded _ _ h =>
    obtain ⟨covered, _, hcovered⟩ := h.covers
    exact ⟨h.source, Span.within_iff.mpr ⟨covered, hcovered⟩⟩

end Setting

/-! ### Templates -/

/-- The fault refuses the value of a directive as a whole. -/
def CompileFault.IsMalformed (fault : CompileFault) : Prop :=
  ∃ setting : Setting, setting.malformed? = some fault

/-- The error covers characters of the text that it names. -/
def CompileError.PointsAtText (e : CompileError) : Prop :=
  e.span.Within e.source.toList

/-- The error of a text with expressions covers characters of it, unless it refuses the text. -/
theorem Setting.Fails.pointsAtText {setting : Setting} {whole : String} {e : CompileError}
    (h : setting.Fails whole e) (hread : ¬e.fault.IsMalformed) : e.PointsAtText := by
  obtain ⟨hsource, hwithin⟩ := h.within fun hmalformed => hread ⟨setting, hmalformed⟩
  rwa [CompileError.PointsAtText, hsource]

/-- The error of an expression covers characters of it. -/
theorem Expression.pointsAtText {source : String} {e : CompileError} (h : compile source = .error e) :
    e.PointsAtText := by
  obtain ⟨hsource, hwithin⟩ := compile_failsWith source e h
  rwa [CompileError.PointsAtText, hsource]

namespace Compile

/-- The error of an attribute covers characters of its value or of its name, unless it refuses the value. -/
theorem AttributeFails.pointsAtText {name value : String} {e : CompileError} (h : AttributeFails name value e)
    (hread : ¬e.fault.IsMalformed) : e.PointsAtText := by
  cases h with
  | condition h => exact Expression.pointsAtText h
  | iteration h => exact (Setting.failsWith_compileIteration value e h).pointsAtText hread
  | classes h => exact (Setting.failsWith_compileMapping value e h).pointsAtText hread
  | styles h => exact (Setting.failsWith_compileMapping value e h).pointsAtText hread
  | unsupported => exact Span.within_iff.mpr ⟨_, Span.covers_whole name⟩
  | event _ h => exact (Setting.failsWith_compileActions value e h).pointsAtText hread

/-- The error of markup covers characters of the text that it names, unless it refuses the value of a directive. -/
theorem MarkupFails.pointsAtText {nodes : List Markup} {e : CompileError} (h : MarkupFails nodes e)
    (hread : ¬e.fault.IsMalformed) : e.PointsAtText := by
  induction h with
  | directive _ _ he => exact he.pointsAtText hread
  | @text _ text _ _ he => exact (Setting.failsWith_compileParts text _ he).pointsAtText hread
  | inside _ _ ih => exact ih hread

variable {α : Type} {P : CompileError → Prop} {cache : CompileCache}

/-- What a computation fails with, from a faithful cache. -/
theorem FailsAs.failsWith {x : Compile α} (h : FailsAs P x) (hcache : cache.Faithful) :
    FailsWith P (x.run.run cache).1 := by
  obtain ⟨answer, hanswer, hfails⟩ := h
  rwa [(hanswer cache hcache).1]

end Compile

namespace Template

/-- A template that is not compiled has been read, and fails as its markup does. -/
theorem markupFails_of_compile {source : String} {cache : CompileCache} {e : CompileError}
    (hcache : cache.Faithful) (h : (compile source cache).1 = .error (.compile e)) :
    ∃ nodes, Markup.read source = .ok nodes ∧ Compile.MarkupFails nodes e := by
  rw [compile] at h
  split at h
  · cases h
  · next nodes hnodes =>
    have hfails := (Compile.failsAs_ofMarkup nodes).failsWith hcache
    split at h
    · cases h
    · next hrun =>
      cases h
      rw [hrun] at hfails
      exact ⟨nodes, hnodes, hfails e rfl⟩

/-- Whatever was compiled before, errors point at the right text. The error of an expression covers characters of
it. The expressions of mappings, iterations, lists of actions and texts lie in them where their spans say; one
that fails alone fails there with an error of the same characters; and they fail only with such errors, or as they
cannot be read. So every error of a template, whether its markup is read or given, covers characters of the text that
it names, unless it refuses the value of a directive. -/
theorem compile_errors_point_at_text {cache : CompileCache} (hcache : cache.Reached) :
    (∀ (source : String) (e : CompileError), ((Compile.expression source).run.run cache).1 = .error e →
      e.source = source ∧ e.PointsAtText) ∧
    (∀ (setting : Setting) (whole : String) (f : Fragment), setting.Holds whole f →
      f.span.Covers whole.toList f.text.toList ∧
        ∀ bare, Expression.compile f.text = .error bare →
          ∃ e, ((Compile.fragment whole f).run.run cache).1 = .error e ∧ Embedded whole f bare e) ∧
    (∀ whole : String,
      FailsWith (Setting.mapping.Fails whole) ((Compile.mapping whole).run.run cache).1 ∧
      FailsWith (Setting.iteration.Fails whole) ((Compile.iteration whole).run.run cache).1 ∧
      FailsWith (Setting.actions.Fails whole) ((Compile.actions whole).run.run cache).1 ∧
      FailsWith (Setting.text.Fails whole) ((Compile.parts whole).run.run cache).1) ∧
    (∀ nodes : List Markup, FailsWith (fun e => Compile.MarkupFails nodes e ∧ (¬e.fault.IsMalformed → e.PointsAtText))
      ((ofMarkup nodes).run.run cache).1) ∧
    ∀ (source : String) (e : CompileError), (compile source cache).1 = .error (.compile e) →
      ∃ nodes, Markup.read source = .ok nodes ∧ Compile.MarkupFails nodes e ∧
        (¬e.fault.IsMalformed → e.PointsAtText) := by
  have hfaithful := hcache.faithful
  refine ⟨fun source e he => ?_, fun setting whole f hf => ⟨hf.liesIn, fun bare hbare => ?_⟩,
    fun whole => ⟨?_, ?_, ?_, ?_⟩, fun nodes e he => ?_, fun source e he => ?_⟩
  · rw [(Compile.answers_expression source cache hfaithful).1] at he
    exact ⟨(Expression.compile_failsWith source e he).1, Expression.pointsAtText he⟩
  · rw [(Compile.answers_fragment whole f cache hfaithful).1]
    exact embedded_of_liesIn hf.liesIn hbare
  · rw [(Compile.answers_mapping whole cache hfaithful).1]
    exact Setting.failsWith_compileMapping whole
  · rw [(Compile.answers_iteration whole cache hfaithful).1]
    exact Setting.failsWith_compileIteration whole
  · rw [(Compile.answers_actions whole cache hfaithful).1]
    exact Setting.failsWith_compileActions whole
  · rw [(Compile.answers_parts whole cache hfaithful).1]
    exact Setting.failsWith_compileParts whole
  · have hfails := (Compile.failsAs_ofMarkup nodes).failsWith hfaithful e he
    exact ⟨hfails, hfails.pointsAtText⟩
  · obtain ⟨nodes, hnodes, hfails⟩ := markupFails_of_compile hfaithful he
    exact ⟨nodes, hnodes, hfails, hfails.pointsAtText⟩

/-- An unknown operator between braces, behind a longer character: the error covers the operator in the text. -/
theorem compile_errors_point_at_text_operator :
    ∃ e : CompileError, e = ⟨.unknownOperator "++", "é\x7b\x7b a ++ b \x7d\x7d", ⟨7, 9⟩⟩ ∧
      CompileCache.empty.Reached ∧
      (compile "<p>é\x7b\x7b a ++ b \x7d\x7d</p>" .empty).1 = .error (.compile e) ∧
      e.PointsAtText ∧ e.span.Covers e.source.toList "++".toList := by
  obtain ⟨e, he⟩ : ∃ e : CompileError, e = ⟨.unknownOperator "++", "é\x7b\x7b a ++ b \x7d\x7d", ⟨7, 9⟩⟩ := ⟨_, rfl⟩
  have hempty : CompileCache.empty.Reached := .empty
  -- Errors can be compared with each other, and templates cannot.
  have hforgotten : (compile "<p>é\x7b\x7b a ++ b \x7d\x7d</p>" .empty).1.map (fun _ => ()) = .error (.compile e) := by
    rw [he]
    decide +kernel
  have herror : (compile "<p>é\x7b\x7b a ++ b \x7d\x7d</p>" .empty).1 = .error (.compile e) := by
    cases hfound : (compile "<p>é\x7b\x7b a ++ b \x7d\x7d</p>" .empty).1 with
    | ok t =>
      rw [hfound] at hforgotten
      cases hforgotten
    | error found =>
      rw [hfound] at hforgotten
      exact congrArg _ (Except.error.inj hforgotten)
  obtain ⟨_, _, _, _, htemplate⟩ := compile_errors_point_at_text hempty
  obtain ⟨nodes, _, _, hpoints⟩ := htemplate _ e herror
  have hread : ¬e.fault.IsMalformed := by
    rw [he]
    rintro ⟨_ | _ | _ | _, h⟩ <;> cases h
  refine ⟨e, he, hempty, herror, hpoints hread, ?_⟩
  rw [he]
  exact ⟨"é\x7b\x7b a ".toList, " b \x7d\x7d".toList, by decide, by decide⟩

end Template

end ReactiveTemplate
