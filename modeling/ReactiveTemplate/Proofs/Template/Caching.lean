import Mathlib
import ReactiveTemplate.Template.Compile
import ReactiveTemplate.Proofs.Dictionary
import ReactiveTemplate.Proofs.Fallible

/-!
# Compiling with a cache

A cache is faithful if it holds nothing but what compiling gives. From every faithful cache a computation
gives the same answer, and it leaves a faithful one: so the answer is that of compiling without a cache.
All caches that come of compiling are faithful.
-/

namespace ReactiveTemplate

open Directive Text

/-- The expression of a fragment, compiled without a cache. -/
def compileFragment (whole : String) (f : Fragment) : Except CompileError Expression :=
  (Expression.compile f.text).mapError fun e => ⟨e.fault, whole, e.span.shift f.span.start⟩

/-- An entry of a mapping, compiled without a cache. -/
def compileEntry (whole : String) (entry : String × Fragment) : Except CompileError (String × Expression) := do
  pure (entry.1, ← compileFragment whole entry.2)

/-- The mapping of a source, compiled without a cache. -/
def compileMapping (source : String) : Except CompileError Mapping := do
  (← readMapping source).mapM (compileEntry source)

/-- The iteration of a header, compiled without a cache. -/
def compileIteration (source : String) : Except CompileError Iteration := do
  let header ← readIteration source
  pure ⟨header.item, header.index, ← compileFragment source header.source⟩

/-- An argument, compiled without a cache. -/
def compileArgument (whole : String) : Argument Fragment → Except CompileError (Argument Expression)
  | .event => pure .event
  | .given f => do pure (.given (← compileFragment whole f))

/-- An action, compiled without a cache. -/
def compileAction (whole : String) :
    Action Fragment Fragment → Except CompileError (Action Expression Expression)
  | .assign target value => do pure (.assign target (← compileFragment whole value))
  | .invoke method arguments => do pure (.invoke method (← arguments.mapM (compileArgument whole)))

/-- The actions of a source, compiled without a cache. -/
def compileActions (source : String) : Except CompileError (List (Action Expression Expression)) := do
  (← readActions source).mapM (compileAction source)

/-- A part of a text, compiled without a cache. -/
def compilePart (whole : String) : Interpolated Fragment → Except CompileError (Interpolated Expression)
  | .literal text => pure (.literal text)
  | .expression f => do pure (.expression (← compileFragment whole f))

/-- The parts of a text, compiled without a cache. -/
def compileParts (text : String) : Except CompileError (List (Interpolated Expression)) :=
  (Interpolated.ofText text).mapM (compilePart text)

/-- A cache that holds nothing but what compiling gives. -/
structure CompileCache.Faithful (cache : CompileCache) : Prop where
  expressions : ∀ source e, cache.expressions.lookup source = some e → Expression.compile source = .ok e
  mappings : ∀ source m, cache.mappings.lookup source = some m → compileMapping source = .ok m

/-- The empty cache is faithful. -/
theorem CompileCache.faithful_empty : CompileCache.empty.Faithful where
  expressions _ _ h := by cases h
  mappings _ _ h := by cases h

namespace Compile

variable {α β : Type}

/-- The computation gives this answer from every faithful cache, and leaves a faithful one. -/
def Answers (x : Compile α) (answer : Except CompileError α) : Prop :=
  ∀ cache : CompileCache, cache.Faithful → (x.run.run cache).1 = answer ∧ (x.run.run cache).2.Faithful

/-- A computation in two steps. -/
theorem run_bind (x : Compile α) (f : α → Compile β) (cache : CompileCache) :
    (x >>= f).run.run cache = match x.run.run cache with
      | (.ok a, after) => (f a).run.run after
      | (.error e, after) => (.error e, after) := by
  rw [ExceptT.run_bind, StateT.run_bind]
  change (match x.run.run cache with | (r, after) => _) = _
  rcases x.run.run cache with ⟨_ | _, after⟩ <;> rfl

/-- A computation whose errors are replaced. -/
theorem run_tryCatch (x : Compile α) (handler : CompileError → Compile α) (cache : CompileCache) :
    (tryCatch x handler).run.run cache = match x.run.run cache with
      | (.ok a, after) => (.ok a, after)
      | (.error e, after) => (handler e).run.run after := by
  rw [ExceptT.run_tryCatch, StateT.run_bind]
  change (match x.run.run cache with | (r, after) => _) = _
  rcases x.run.run cache with ⟨_ | _, after⟩ <;> rfl

/-- The cache is read. -/
theorem run_get (cache : CompileCache) : (get : Compile CompileCache).run.run cache = (.ok cache, cache) :=
  rfl

theorem answers_pure (a : α) : Answers (pure a) (.ok a) :=
  fun _ h => ⟨rfl, h⟩

theorem answers_throw (e : CompileError) : Answers (throw e : Compile α) (.error e) :=
  fun _ h => ⟨rfl, h⟩

/-- A result without use of the cache is the answer. -/
theorem answers_liftExcept (r : Except CompileError α) : Answers (expression.liftExcept r) r := by
  cases r with
  | ok a => exact answers_pure a
  | error e => exact answers_throw e

/-- The answer of a computation in two steps. -/
theorem Answers.bind {x : Compile α} {answer : Except CompileError α} {f : α → Compile β}
    {next : α → Except CompileError β} (hx : Answers x answer) (hf : ∀ a, Answers (f a) (next a)) :
    Answers (x >>= f) (answer >>= next) := by
  intro cache hcache
  obtain ⟨hanswer, hafter⟩ := hx cache hcache
  rw [run_bind]
  generalize x.run.run cache = outcome at hanswer hafter
  obtain ⟨result, after⟩ := outcome
  subst hanswer
  cases result with
  | error e => exact ⟨rfl, hafter⟩
  | ok a => exact hf a after hafter

/-- The answer of a computation for each item of a list. -/
theorem Answers.mapM {f : α → Compile β} {answer : α → Except CompileError β}
    (h : ∀ a, Answers (f a) (answer a)) (as : List α) : Answers (as.mapM f) (as.mapM answer) := by
  induction as with
  | nil => exact answers_pure []
  | cons a as ih =>
    rw [List.mapM_cons, List.mapM_cons]
    exact (h a).bind fun b => ih.bind fun bs => answers_pure (b :: bs)

/-- The answer of a computation whose result is kept, if what is kept is faithful. -/
theorem Answers.store {x : Compile α} {answer : Except CompileError α} (hx : Answers x answer)
    (keep : α → CompileCache → CompileCache)
    (hkeep : ∀ a, answer = .ok a → ∀ cache : CompileCache, cache.Faithful → (keep a cache).Faithful) :
    Answers (do let a ← x; modify (keep a); pure a) answer := by
  intro cache hcache
  obtain ⟨hanswer, hafter⟩ := hx cache hcache
  rw [run_bind]
  generalize x.run.run cache = outcome at hanswer hafter
  obtain ⟨result, after⟩ := outcome
  subst hanswer
  cases result with
  | error e => exact ⟨rfl, hafter⟩
  | ok a => exact ⟨rfl, hkeep a rfl after hafter⟩

/-- An expression is compiled as without a cache. -/
theorem answers_expression (source : String) : Answers (expression source) (Expression.compile source) := by
  have hstore := (answers_liftExcept (Expression.compile source)).store
    (fun e cache => { cache with expressions := Dictionary.put source e cache.expressions })
    fun e he cache hcache => by
      refine ⟨fun asked found hfound => ?_, hcache.mappings⟩
      rw [Dictionary.lookup_put] at hfound
      split at hfound
      · next heq =>
        cases hfound
        rw [heq, he]
      · exact hcache.expressions asked found hfound
  intro cache hcache
  rw [expression, run_bind, run_get]
  cases hfound : cache.expressions.lookup source with
  | some e =>
    simp only [hfound]
    exact ⟨(hcache.expressions source e hfound).symm, hcache⟩
  | none =>
    simp only [hfound]
    exact hstore cache hcache

/-- A fragment is compiled as without a cache. -/
theorem answers_fragment (whole : String) (f : Fragment) :
    Answers (fragment whole f) (compileFragment whole f) := by
  intro cache hcache
  obtain ⟨hanswer, hafter⟩ := answers_expression f.text cache hcache
  rw [fragment, run_tryCatch, compileFragment, ← hanswer]
  generalize (expression f.text).run.run cache = outcome at hafter
  obtain ⟨_ | _, after⟩ := outcome
  · exact ⟨rfl, hafter⟩
  · exact ⟨rfl, hafter⟩

/-- A mapping is compiled as without a cache. -/
theorem answers_mapping (source : String) : Answers (mapping source) (compileMapping source) := by
  have hentry (entry : String × Fragment) :
      Answers (do pure (entry.1, ← fragment source entry.2)) (compileEntry source entry) :=
    (answers_fragment source entry.2).bind fun e => answers_pure (entry.1, e)
  have hentries := (answers_liftExcept (readMapping source)).bind fun entries => Answers.mapM hentry entries
  have hstore := hentries.store
    (fun m cache => { cache with mappings := Dictionary.put source m cache.mappings })
    fun m hm cache hcache => by
      refine ⟨hcache.expressions, fun asked found hfound => ?_⟩
      rw [Dictionary.lookup_put] at hfound
      split at hfound
      · next heq =>
        cases hfound
        rw [heq]
        exact hm
      · exact hcache.mappings asked found hfound
  intro cache hcache
  rw [mapping, run_bind, run_get]
  cases hfound : cache.mappings.lookup source with
  | some m =>
    simp only [hfound]
    exact ⟨(hcache.mappings source m hfound).symm, hcache⟩
  | none =>
    simp only [hfound]
    rw [bind_assoc] at hstore
    exact hstore cache hcache

/-- An iteration is compiled as without a cache. -/
theorem answers_iteration (source : String) : Answers (iteration source) (compileIteration source) :=
  (answers_liftExcept (readIteration source)).bind fun header =>
    (answers_fragment source header.source).bind fun e =>
      answers_pure (Iteration.mk header.item header.index e)

/-- Actions are compiled as without a cache. -/
theorem answers_actions (source : String) : Answers (actions source) (compileActions source) := by
  have hargument (given : Argument Fragment) :
      Answers (argument source given) (compileArgument source given) := by
    cases given with
    | event => exact answers_pure Argument.event
    | given f => exact (answers_fragment source f).bind fun e => answers_pure (Argument.given e)
  have haction (written : Action Fragment Fragment) :
      Answers (action source written) (compileAction source written) := by
    cases written with
    | assign target value =>
      exact (answers_fragment source value).bind fun e => answers_pure (Action.assign target e)
    | invoke method arguments =>
      exact (Answers.mapM hargument arguments).bind fun es => answers_pure (Action.invoke method es)
  exact (answers_liftExcept (readActions source)).bind fun written => .mapM haction written

/-- The parts of a text are compiled as without a cache. -/
theorem answers_parts (text : String) : Answers (parts text) (compileParts text) := by
  refine .mapM (fun written => ?_) _
  cases written with
  | literal _ => exact answers_pure _
  | expression f => exact (answers_fragment text f).bind fun e => answers_pure (Interpolated.expression e)

/-! ### Templates -/

/-- What the directive of an attribute fails with. -/
inductive AttributeFails : (name value : String) → CompileError → Prop where
  | condition {value : String} {e : CompileError} (h : Expression.compile value = .error e) :
      AttributeFails "v-if" value e
  | iteration {value : String} {e : CompileError} (h : compileIteration value = .error e) :
      AttributeFails "v-for" value e
  | classes {value : String} {e : CompileError} (h : compileMapping value = .error e) :
      AttributeFails "v-bind:class" value e
  | styles {value : String} {e : CompileError} (h : compileMapping value = .error e) :
      AttributeFails "v-bind:style" value e
  | unsupported (name value : String) : AttributeFails name value ⟨.unsupportedDirective name, name, .whole name⟩
  | event {name value event : String} {e : CompileError} (hname : eventOf? name = some event)
      (h : compileActions value = .error e) : AttributeFails name value e

/-- What markup fails with: with a directive or a text that is somewhere in it. -/
inductive MarkupFails : List Markup → CompileError → Prop where
  | directive {ms children : List Markup} {tag name value : String} {attributes : List (String × String)}
      {e : CompileError} (h : .element tag attributes children ∈ ms) (hentry : (name, value) ∈ attributes)
      (he : AttributeFails name value e) : MarkupFails ms e
  | text {ms : List Markup} {text : String} {e : CompileError} (h : .text text ∈ ms)
      (he : compileParts text = .error e) : MarkupFails ms e
  | inside {ms children : List Markup} {tag : String} {attributes : List (String × String)} {e : CompileError}
      (h : .element tag attributes children ∈ ms) (he : MarkupFails children e) : MarkupFails ms e

/-- More markup fails with the same. -/
theorem MarkupFails.mono {ms ms' : List Markup} {e : CompileError} (h : MarkupFails ms e) (hsub : ms ⊆ ms') :
    MarkupFails ms' e := by
  cases h with
  | directive h hentry he => exact .directive (hsub h) hentry he
  | text h he => exact .text (hsub h) he
  | inside h he => exact .inside (hsub h) he

/-- The computation has an answer that does not depend on the cache. -/
def Settled (x : Compile α) : Prop :=
  ∃ answer, Answers x answer

/-- The computation has an answer that does not depend on the cache, and fails with certain errors only. -/
def FailsAs (P : CompileError → Prop) (x : Compile α) : Prop :=
  ∃ answer, Answers x answer ∧ FailsWith P answer

section Fails

variable {P Q : CompileError → Prop}

theorem FailsAs.settled {x : Compile α} (h : FailsAs P x) : Settled x := by
  obtain ⟨answer, hanswer, _⟩ := h
  exact ⟨answer, hanswer⟩

theorem failsAs_pure (a : α) : FailsAs P (pure a) :=
  ⟨_, answers_pure a, .ok a⟩

/-- A computation with an answer fails with what the answer fails with. -/
theorem Answers.failsAs {x : Compile α} {answer : Except CompileError α} (h : Answers x answer)
    (hfails : ∀ e, answer = .error e → P e) : FailsAs P x :=
  ⟨answer, h, hfails⟩

/-- There may be more errors. -/
theorem FailsAs.mono {x : Compile α} (h : FailsAs P x) (hle : ∀ e, P e → Q e) : FailsAs Q x := by
  obtain ⟨answer, hanswer, hfails⟩ := h
  exact ⟨answer, hanswer, fun e he => hle e (hfails e he)⟩

/-- A computation in two steps. -/
theorem FailsAs.bind {x : Compile α} {f : α → Compile β} (hx : FailsAs P x) (hf : ∀ a, FailsAs P (f a)) :
    FailsAs P (x >>= f) := by
  obtain ⟨answer, hanswer, hfails⟩ := hx
  choose next hnext hnextFails using hf
  exact ⟨_, hanswer.bind hnext, hfails.bind fun a _ => hnextFails a⟩

/-- A computation over a list from the left. -/
theorem FailsAs.foldlM {f : β → α → Compile β} {as : List α} (h : ∀ b, ∀ a ∈ as, FailsAs P (f b a)) (b : β) :
    FailsAs P (as.foldlM f b) := by
  induction as generalizing b with
  | nil => exact failsAs_pure b
  | cons a as ih =>
    rw [List.foldlM_cons]
    exact (h b a List.mem_cons_self).bind (ih fun b a ha => h b a (List.mem_cons_of_mem _ ha))

end Fails

/-- An attribute, whichever directive it is. -/
theorem failsAs_attributeInto (head : ElementHead) (name value : String) :
    FailsAs (AttributeFails name value) (attributeInto head name value) := by
  rw [attributeInto]
  split
  · next hname =>
    subst hname
    exact ((answers_expression value).failsAs fun _ => .condition).bind fun _ => failsAs_pure _
  split
  · next hname =>
    subst hname
    exact ((answers_iteration value).failsAs fun _ => .iteration).bind fun _ => failsAs_pure _
  split
  · next hname =>
    subst hname
    exact ((answers_mapping value).failsAs fun _ => .classes).bind fun _ => failsAs_pure _
  split
  · next hname =>
    subst hname
    exact ((answers_mapping value).failsAs fun _ => .styles).bind fun _ => failsAs_pure _
  split
  · refine (answers_throw _).failsAs fun e he => ?_
    cases he
    exact .unsupported name value
  split
  · next hname => exact ((answers_actions value).failsAs fun _ => .event hname).bind fun _ => failsAs_pure _
  · exact failsAs_pure _

/-- The head of an element. -/
theorem failsAs_head (tag : String) (attributes : List (String × String)) :
    FailsAs (fun e => ∃ entry ∈ attributes, AttributeFails entry.1 entry.2 e) (head tag attributes) :=
  FailsAs.foldlM (fun head entry hentry =>
    (failsAs_attributeInto head entry.1 entry.2).mono fun _ he => ⟨entry, hentry, he⟩) _

/-- The head of an element among some nodes. -/
theorem failsAs_head_of_mem {ms children : List Markup} {tag : String} {attributes : List (String × String)}
    (h : .element tag attributes children ∈ ms) : FailsAs (MarkupFails ms) (head tag attributes) :=
  (failsAs_head tag attributes).mono fun _ ⟨_, hentry, he⟩ => .directive h hentry he

mutual

/-- A node of markup. -/
theorem failsAs_node (m : Markup) : FailsAs (MarkupFails [m]) (node m) := by
  cases m with
  | text text =>
    exact ((answers_parts text).failsAs fun _ => .text List.mem_cons_self).bind fun _ => failsAs_pure _
  | element tag attributes children =>
    have hmem : Markup.element tag attributes children ∈ [.element tag attributes children] := List.mem_cons_self
    have hinside := (failsAs_nodeList children).mono fun _ he => MarkupFails.inside hmem he
    exact (failsAs_head_of_mem hmem).bind fun _ => hinside.bind fun _ => failsAs_pure _

/-- Nodes of markup. -/
theorem failsAs_nodeList (ms : List Markup) : FailsAs (MarkupFails ms) (nodeList ms) := by
  cases ms with
  | nil => exact failsAs_pure []
  | cons m ms =>
    have hfirst := (failsAs_node m).mono fun _ he => he.mono (List.cons_subset_cons m (List.nil_subset ms))
    have hrest := (failsAs_nodeList ms).mono fun _ he => he.mono (List.subset_cons_self m ms)
    exact hfirst.bind fun _ => hrest.bind fun _ => failsAs_pure _

end

/-- The elements among nodes of markup. -/
theorem failsAs_roots (ms : List Markup) : FailsAs (MarkupFails ms) (roots ms) := by
  induction ms with
  | nil => exact failsAs_pure []
  | cons m ms ih =>
    have hrest := ih.mono fun _ he => he.mono (List.subset_cons_self m ms)
    cases m with
    | text _ => exact hrest
    | element tag attributes children =>
      have hmem : Markup.element tag attributes children ∈ .element tag attributes children :: ms :=
        List.mem_cons_self
      have hinside := (failsAs_nodeList children).mono fun _ he => MarkupFails.inside hmem he
      exact (failsAs_head_of_mem hmem).bind fun _ => hinside.bind fun _ =>
        hrest.bind fun _ => failsAs_pure _

/-- A template of markup. -/
theorem failsAs_ofMarkup (nodes : List Markup) : FailsAs (MarkupFails nodes) (Template.ofMarkup nodes) :=
  (failsAs_roots nodes).bind fun _ => failsAs_pure _

/-- A template of markup. -/
theorem settled_ofMarkup (nodes : List Markup) : Settled (Template.ofMarkup nodes) :=
  (failsAs_ofMarkup nodes).settled

end Compile

/-! ### Caches that come of compiling -/

namespace CompileCache

/-- The caches that come of compiling, with success or without, from the empty one. -/
inductive Reached : CompileCache → Prop where
  | empty : Reached .empty
  | expression {cache : CompileCache} (h : Reached cache) (source : String) :
      Reached ((Compile.expression source).run.run cache).2
  | mapping {cache : CompileCache} (h : Reached cache) (source : String) :
      Reached ((Compile.mapping source).run.run cache).2
  | ofMarkup {cache : CompileCache} (h : Reached cache) (nodes : List Markup) :
      Reached ((Template.ofMarkup nodes).run.run cache).2
  | template {cache : CompileCache} (h : Reached cache) (source : String) :
      Reached (Template.compile source cache).2

/-- Compiling a template leaves a faithful cache. -/
theorem Faithful.template {cache : CompileCache} (h : cache.Faithful) (source : String) :
    (Template.compile source cache).2.Faithful := by
  rw [Template.compile]
  split
  · exact h
  · next nodes _ =>
    obtain ⟨answer, hanswer⟩ := Compile.settled_ofMarkup nodes
    have hafter := (hanswer cache h).2
    split
    · next hrun => rwa [hrun] at hafter
    · next hrun => rwa [hrun] at hafter

/-- A cache that comes of compiling is faithful. -/
theorem Reached.faithful {cache : CompileCache} (h : cache.Reached) : cache.Faithful := by
  induction h with
  | empty => exact faithful_empty
  | expression _ source ih => exact (Compile.answers_expression source _ ih).2
  | mapping _ source ih => exact (Compile.answers_mapping source _ ih).2
  | ofMarkup _ nodes ih =>
    obtain ⟨answer, hanswer⟩ := Compile.settled_ofMarkup nodes
    exact (hanswer _ ih).2
  | template _ source ih => exact ih.template source

/-- A template of markup is compiled alike from two faithful caches. -/
theorem Faithful.ofMarkup_eq {cache cache' : CompileCache} (h : cache.Faithful) (h' : cache'.Faithful)
    (nodes : List Markup) :
    ((Template.ofMarkup nodes).run.run cache).1 = ((Template.ofMarkup nodes).run.run cache').1 := by
  obtain ⟨answer, hanswer⟩ := Compile.settled_ofMarkup nodes
  exact (hanswer cache h).1.trans (hanswer cache' h').1.symm

/-- A template of a text is compiled alike from two faithful caches. -/
theorem Faithful.template_eq {cache cache' : CompileCache} (h : cache.Faithful) (h' : cache'.Faithful)
    (source : String) : (Template.compile source cache).1 = (Template.compile source cache').1 := by
  rw [Template.compile, Template.compile]
  cases Markup.read source with
  | error e => rfl
  | ok nodes =>
    have hsame := h.ofMarkup_eq h' nodes
    dsimp only
    generalize (Template.ofMarkup nodes).run.run cache = outcome,
      (Template.ofMarkup nodes).run.run cache' = outcome' at hsame
    obtain ⟨result, after⟩ := outcome
    obtain ⟨result', after'⟩ := outcome'
    subst hsame
    cases result <;> rfl

/-- Whatever was compiled before, with success or without: an expression, a mapping and a template are compiled
with the same result or the same error as without a cache, and as with an empty one. -/
theorem Reached.compiles_as_empty {cache : CompileCache} (h : cache.Reached) :
    (∀ source, ((Compile.expression source).run.run cache).1 = Expression.compile source) ∧
      (∀ source, ((Compile.mapping source).run.run cache).1 = compileMapping source ∧
        ((Compile.mapping source).run.run cache).1 = ((Compile.mapping source).run.run .empty).1) ∧
      (∀ nodes, ((Template.ofMarkup nodes).run.run cache).1 = ((Template.ofMarkup nodes).run.run .empty).1) ∧
      ∀ source, (Template.compile source cache).1 = (Template.compile source .empty).1 := by
  have hfaithful := h.faithful
  refine ⟨fun source => (Compile.answers_expression source cache hfaithful).1, fun source => ?_,
    hfaithful.ofMarkup_eq faithful_empty, hfaithful.template_eq faithful_empty⟩
  have hmapping := (Compile.answers_mapping source cache hfaithful).1
  exact ⟨hmapping, hmapping.trans (Compile.answers_mapping source .empty faithful_empty).1.symm⟩

/-- A cache after a mapping that failed at its second entry, and a template that failed at its second attribute. -/
def frayed : CompileCache :=
  let cache := ((Compile.mapping "{a: x, b: y +}").run.run .empty).2
  (Template.compile "<p v-if='!x' v-bind:style='{b: y +}'></p>" cache).2

/-- The cache holds what was compiled before the failures. With it a mapping and a template of the same parts
are compiled as with an empty one. -/
theorem Reached.compiles_as_empty_frayed :
    frayed.Reached ∧ frayed.expressions.names = ["x", "!x"] ∧ frayed.mappings.names = [] ∧
      ((Compile.mapping "{a: x, b: y +}").run.run frayed).1 = compileMapping "{a: x, b: y +}" ∧
      (Template.compile "<p v-if='x' v-bind:class='{a: !x}'></p>" frayed).1 =
        (Template.compile "<p v-if='x' v-bind:class='{a: !x}'></p>" .empty).1 := by
  have hreached : frayed.Reached := .template (.mapping .empty _) _
  obtain ⟨_, hmapping, _, htemplate⟩ := hreached.compiles_as_empty
  refine ⟨hreached, ?_, ?_, (hmapping _).1, htemplate _⟩ <;> decide +kernel

end CompileCache

end ReactiveTemplate
