import ReactiveTemplate.Component.Basic
import ReactiveTemplate.Proofs.Render.Reading

/-!
# Writing to a component

A write either schedules a render or does not matter to what the template means: the value was the same,
or the field is private and neither the template nor a computed field reads it.
-/

namespace ReactiveTemplate

open Json

namespace Component

variable {c c' : Component}

/-- A computed field depends on a field of the store. -/
def DependsOn (computed : Store → Value) (field : String) : Prop :=
  ∃ store value,
    computed { store with fields := Dictionary.put field value store.fields } ≠ computed store

/-- The template of a component reads a field, or a computed field depends on it. -/
def Reads (c : Component) (field : String) : Prop :=
  c.template.Reads field ∨
    ∃ name computed, c.computed.lookup name = some computed ∧ DependsOn computed field

/-- A field that may be written without leaving the page behind: it is public, or nothing reads it. -/
def Writable (c : Component) (field : String) : Prop :=
  Store.isPrivate field = true → ¬ c.Reads field

/-- What a component means: the tree that its template means for its store and computed fields. -/
def tree (c : Component) : Except Error Snapshot :=
  c.template.tree c.resolver

/-- Two records of one component: what it was built from is the same. -/
structure Kin (c c' : Component) : Prop where
  template : c'.template = c.template
  methods : c'.methods = c.methods
  computed : c'.computed = c.computed
  hook : c'.hook = c.hook

/-- A record is kin to itself. -/
theorem Kin.refl (c : Component) : Kin c c :=
  ⟨rfl, rfl, rfl, rfl⟩

/-- Records of records of one component. -/
theorem Kin.trans {c'' : Component} (h : Kin c c') (h' : Kin c' c'') : Kin c c'' :=
  ⟨h'.template.trans h.template, h'.methods.trans h.methods, h'.computed.trans h.computed,
    h'.hook.trans h.hook⟩

/-- Kin have the same writable fields. -/
theorem Kin.writable (h : Kin c c') {field : String} (hw : c.Writable field) : c'.Writable field := by
  intro hprivate hreads
  rw [Reads, h.template, h.computed] at hreads
  exact hw hprivate hreads

/-- Replacing the value of a field that nothing reads does not change what a component means. -/
theorem tree_put {field : String} (h : ¬ c.Reads field) (value : Value) :
    tree { c with store := { c.store with fields := Dictionary.put field value c.store.fields } } =
      c.tree := by
  apply Template.tree_congr
  intro name hname
  have hne : name ≠ field := fun heq => h (Or.inl (heq ▸ hname))
  rw [resolver, resolver, Store.find?, Store.find?, Dictionary.lookup_put, if_neg hne]
  cases hlookup : c.computed.lookup name with
  | none => rfl
  | some computed =>
    have hsame : computed { c.store with fields := Dictionary.put field value c.store.fields } =
        computed c.store := by
      refine Classical.byContradiction fun hdiffers => h (Or.inr ?_)
      exact ⟨name, computed, hlookup, c.store, value, hdiffers⟩
    rw [Option.map_some, Option.map_some]
    exact congrArg (fun computed => Option.or _ (some computed)) hsame

/-- A later record of a component that was not rendered meanwhile: a render is pending, or as much is
pending as was and the component means what it meant. -/
structure Moved (c c' : Component) : Prop extends Kin c c' where
  root : c'.root = c.root
  current : c'.scheduler.pending = true ∨ c'.scheduler.pending = c.scheduler.pending ∧ c'.tree = c.tree

/-- A record follows itself. -/
theorem Moved.refl (c : Component) : Moved c c :=
  ⟨.refl c, rfl, Or.inr ⟨rfl, rfl⟩⟩

/-- A later record of a later record. -/
theorem Moved.trans {c'' : Component} (h : Moved c c') (h' : Moved c' c'') : Moved c c'' where
  toKin := h.toKin.trans h'.toKin
  root := h'.root.trans h.root
  current := by
    rcases h'.current with hpending | ⟨hpending, htree⟩
    · exact Or.inl hpending
    · rcases h.current with hbefore | ⟨hbefore, hmeant⟩
      · exact Or.inl (hpending.trans hbefore)
      · exact Or.inr ⟨hpending.trans hbefore, htree.trans hmeant⟩

/-- A write to a field that may be written schedules a render or changes nothing that can be seen. -/
theorem moved_write {field : String} (hw : c.Writable field) (value : Value) :
    Moved c (c.write field value).2.2 := by
  cases hold : c.store.find? field with
  | none =>
    have hrun : (c.write field value).2.2 = c := by simp [write, Store.write?, hold]
    rw [hrun]
    exact .refl c
  | some old =>
    cases hequal : Expression.strictEqual old value with
    | true =>
      have hrun : (c.write field value).2.2 = c := by simp [write, Store.write?, hold, hequal]
      rw [hrun]
      exact .refl c
    | false =>
      generalize hstore : { c.store with fields := Dictionary.put field value c.store.fields } = store
      cases hprivate : Store.isPrivate field with
      | false =>
        have hrun : (c.write field value).2.2 = ({ c with store } : Component).requestRender.2 := by
          simp [write, Store.write?, hold, hequal, hprivate, ← hstore]
        rw [hrun]
        exact ⟨⟨rfl, rfl, rfl, rfl⟩, rfl, Or.inl rfl⟩
      | true =>
        have hrun : (c.write field value).2.2 = { c with store } := by
          simp [write, Store.write?, hold, hequal, hprivate, ← hstore]
        rw [hrun, ← hstore]
        exact ⟨⟨rfl, rfl, rfl, rfl⟩, rfl, Or.inr ⟨rfl, tree_put (hw hprivate) value⟩⟩

/-- Evaluating changes at most the cache. -/
theorem moved_evaluate (c : Component) (source : String) : Moved c (c.evaluate source).2.2 := by
  rw [evaluate]
  split <;> exact ⟨⟨rfl, rfl, rfl, rfl⟩, rfl, Or.inr ⟨rfl, rfl⟩⟩

end Component

end ReactiveTemplate
