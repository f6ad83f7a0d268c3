import ReactiveTemplate.Template.Basic
import ReactiveTemplate.Directive.Mapping

/-!
# The compile cache

Expressions and mappings are compiled once for each source text. What fails to compile is not kept.
-/

namespace ReactiveTemplate

open Directive Text

/-- What was compiled, by source text. -/
structure CompileCache where
  expressions : Dictionary Expression
  mappings : Dictionary Mapping

/-- The cache that holds nothing. -/
def CompileCache.empty : CompileCache := ⟨[], []⟩

/-- Compiling with a cache, which is kept also when an error ends it. -/
abbrev Compile (α : Type) := ExceptT CompileError (StateM CompileCache) α

namespace Compile

/-- The expression of a source. -/
def expression (source : String) : Compile Expression := do
  match (← get).expressions.lookup source with
  | some e => pure e
  | none =>
    let e ← liftExcept (Expression.compile source)
    modify fun cache => { cache with expressions := Dictionary.put source e cache.expressions }
    pure e
where
  /-- A result without use of the cache. -/
  liftExcept {α : Type} : Except CompileError α → Compile α
    | .ok a => pure a
    | .error e => throw e

/-- The expression of a fragment; its errors point into the whole text. -/
def fragment (whole : String) (f : Fragment) : Compile Expression :=
  tryCatch (expression f.text) fun e => throw ⟨e.fault, whole, e.span.shift f.span.start⟩

/-- The mapping of a source. -/
def mapping (source : String) : Compile Mapping := do
  match (← get).mappings.lookup source with
  | some m => pure m
  | none =>
    let entries ← expression.liftExcept (readMapping source)
    let m ← entries.mapM fun (key, f) => do pure (key, ← fragment source f)
    modify fun cache => { cache with mappings := Dictionary.put source m cache.mappings }
    pure m

end Compile

end ReactiveTemplate
