import ReactiveTemplate.Component.Basic
import ReactiveTemplate.Proofs.Json.Correspondence
import ReactiveTemplate.Proofs.Render.Refinement

/-!
# Writes that are skipped

A write is skipped if the new value is strictly equal to the one in the store. That loses nothing if the
two values are interchangeable to the template, and so are those of the computed fields that it reads: a
render would show the same with either. Strict equality alone does not suffice.
-/

namespace ReactiveTemplate

open Json

variable {L : Type}

/-- What a render shows: an error, or the tree of the node that it made. -/
def Template.shown (t : Template) (s : Surroundings L) (st : RenderState L) : Except Error (Option Snapshot) :=
  match (t.render s).outcome st with
  | (.ok root, after) => .ok (after.document.snapshot? root)
  | (.error e, _) => .error e

/-- A render shows what the template means. -/
theorem Template.shown_eq (t : Template) (s : Surroundings L) {st : RenderState L} (h : st.document.WellFormed) :
    t.shown s st = (t.tree s.resolver).map some := by
  have hagrees := t.render_agrees s h
  rw [shown]
  generalize (t.render s).outcome st = out, t.tree s.resolver = meant at hagrees ⊢
  cases hagrees with
  | ok hdone =>
    obtain ⟨u, rfl, hgrown, rfl⟩ := hdone
    have hread := (hgrown.holds u (List.mem_singleton_self u)).subtree? hgrown.wellFormed.linked
    change Except.ok (Document.snapshot? _ u.id) = Except.ok (some u.snapshot)
    rw [Document.snapshot?, hread, Option.map_some]
  | error _ => rfl

namespace Component

/-- A component with another value of a field in its store. -/
def holding (c : Component) (field : String) (value : Value) : Component :=
  { c with store := { c.store with fields := Dictionary.put field value c.store.fields } }

/-- The computed fields that a template reads keep their values, up to interchangeable ones, if a field
of the store has another. -/
def ComputesAlike (c : Component) (field : String) (value : Value) : Prop :=
  ∀ name computed, c.template.Reads name → c.store.has name = false → c.computed.lookup name = some computed →
    computed c.store = computed (c.holding field value).store ∨
      (computed c.store).Interchangeable (c.template.Applies .looseEqual) (computed (c.holding field value).store)

/-- Names mean values that resemble one another, if a field of the store has an interchangeable value. -/
theorem resolver_holding {c : Component} {field : String} {old value : Value}
    (hold : c.store.find? field = some old)
    (hvalue : old.Interchangeable (c.template.Applies .looseEqual) value) (hcomputed : c.ComputesAlike field value)
    {name : String} (hreads : c.template.Reads name) :
    Option.Rel (Value.Resembles (c.template.Applies .looseEqual)) (c.resolver name)
      ((c.holding field value).resolver name) := by
  rw [resolver, resolver]
  by_cases hname : name = field
  · have hnew : (c.holding field value).store.find? name = some value := by
      rw [Store.find?, holding, Dictionary.lookup_put, if_pos hname]
    rw [hnew, hname, hold]
    exact .some hvalue.resembles
  · have hkept : (c.holding field value).store.find? name = c.store.find? name := by
      rw [Store.find?, Store.find?, holding, Dictionary.lookup_put, if_neg hname]
    rw [hkept]
    cases hfound : c.store.find? name with
    | some found => exact .some (.refl found)
    | none =>
      have hhidden : c.store.has name = false := by rw [Store.has, hfound]; rfl
      have hsame : (c.holding field value).computed = c.computed := rfl
      rw [hsame]
      cases hlookup : c.computed.lookup name with
      | none => exact .none
      | some computed =>
        refine .some ?_
        dsimp only
        rcases hcomputed name computed hreads hhidden hlookup with hequal | hother
        · rw [hequal]
          exact .refl _
        · exact hother.resembles

/-- A write that is skipped as unchanged would not have changed what a render shows, whether a tree or an
error, if the two values are well-formed and correspond place by place, and the computed fields that the
template reads do not tell them apart. The renders may go on in any documents and make any listeners. -/
theorem shown_of_unchanged {c : Component} {field : String} {old value : Value}
    (hold : c.store.find? field = some old) (hunchanged : c.store.write? field value = some (.unchanged, c.store))
    (hleft : old.WellFormed) (hright : value.WellFormed)
    (hcorresponds : old.Corresponds (c.template.Applies .looseEqual) value) (hcomputed : c.ComputesAlike field value)
    (listener listener' : Handler → L) {st st' : RenderState L} (h : st.document.Reachable)
    (h' : st'.document.Reachable) :
    c.template.shown ⟨(c.holding field value).resolver, listener'⟩ st' =
      c.template.shown ⟨c.resolver, listener⟩ st := by
  have hequal : Expression.strictEqual old value = true := by
    rw [Store.write?, hold, Option.map_some, Option.some.injEq] at hunchanged
    split at hunchanged
    · assumption
    · cases hunchanged
  have hmeant : c.template.tree c.resolver = c.template.tree (c.holding field value).resolver :=
    Template.tree_agrees (Value.Resembles.likeness (c.template.Applies .looseEqual))
      (fun o happlies hloose => hloose ▸ happlies)
      fun name hreads => resolver_holding hold ⟨hleft, hright, hequal, hcorresponds⟩ hcomputed hreads
  rw [Template.shown_eq _ _ h.wellFormed, Template.shown_eq _ _ h'.wellFormed, hmeant]

/-- A component for a template with computed fields and fields of a store, that was never rendered. -/
def ofTemplate (template : Template) (computed : Dictionary (Store → Value)) (fields : Dictionary Value) :
    Component where
  name := Blueprint.unnamed
  template := template
  methods := []
  computed := computed
  hook := none
  scheduler := .every Scheduler.defaultInterval
  store := ⟨fields, false⟩
  cache := .empty
  root := ⟨0, 0⟩
  lastError := none
  renderCount := 0

/-- An expression that is a name. -/
def naming (name : String) : Expression :=
  ⟨name, .path ⟨name, []⟩⟩

/-- A list of what is in `m` after its title, each item in an entry of its own. -/
def titledList : Template where
  roots := [(⟨"ul", [], {}⟩,
    [.text [.expression (naming "title")],
      .element ⟨"li", [], { iteration := some ⟨"x", none, naming "m"⟩ }⟩ [.text [.expression (naming "x")]]])]

/-- A list of two items, titled with their number. -/
def counted : Component :=
  ofTemplate titledList
    [("title", fun store =>
      match store.find? "m" with
      | some (.array items) => .ofNat items.length
      | _ => .null)]
    [("m", .array [.number (.integer 2), .string "a"])]

/-- A list in which a number is written again as a double. -/
theorem shown_of_unchanged_counted :
    let value : Value := .array [.number (.float 2), .string "a"]
    counted.store.write? "m" value = some (.unchanged, counted.store) ∧
      counted.template.shown (⟨(counted.holding "m" value).resolver, fun _ => ()⟩ : Surroundings Unit)
          ⟨.empty, [], []⟩ =
        counted.template.shown ⟨counted.resolver, fun _ => ()⟩ ⟨.empty, [], []⟩ := by
  intro value
  have hunchanged : counted.store.write? "m" value = some (.unchanged, counted.store) := by
    have hequal : Expression.strictEqual (.array [.number (.integer 2), .string "a"]) value = true := by
      decide +kernel
    change some (if Expression.strictEqual (.array [.number (.integer 2), .string "a"]) value then _ else _) = _
    rw [if_pos hequal]
  have hcompares : ¬ counted.template.Applies .looseEqual := by
    rintro ⟨e, he, happlies⟩
    simp [counted, ofTemplate, titledList, TemplateNode.expressionsList, TemplateNode.expressions,
      Interpolated.expressions, Directives.expressions] at he
    rcases he with rfl | rfl | rfl <;> exact happlies
  have hwhole : (Number.integer 2).whole? = (Number.float 2).whole? := by decide +kernel
  refine ⟨hunchanged, shown_of_unchanged rfl hunchanged ?_ ?_ ?_ ?_ _ _ .empty .empty⟩
  · exact ⟨⟨by decide, by decide⟩, trivial, trivial⟩
  · exact ⟨trivial, trivial, trivial⟩
  · exact .array (.cons (.number ⟨hwhole, fun h => absurd h hcompares⟩) (.cons (.string "a") .nil))
  · intro name computed _ _ hlookup
    rw [counted, ofTemplate, Dictionary.lookup_cons] at hlookup
    split at hlookup
    · cases hlookup
      exact Or.inl rfl
    · cases hlookup

/-- A write is skipped that a render would have shown. -/
def Loses (c : Component) (field : String) (value : Value) : Prop :=
  c.store.write? field value = some (.unchanged, c.store) ∧
    c.template.shown (⟨(c.holding field value).resolver, fun _ => ()⟩ : Surroundings Unit) ⟨.empty, [], []⟩ ≠
      c.template.shown ⟨c.resolver, fun _ => ()⟩ ⟨.empty, [], []⟩

/-- A write of a strictly equal value that makes a template mean another tree. -/
theorem loses_of_trees {c : Component} {field : String} {old value : Value} {before after : Snapshot}
    (hold : c.store.find? field = some old) (hequal : Expression.strictEqual old value = true)
    (hbefore : c.template.tree c.resolver = .ok before)
    (hafter : c.template.tree (c.holding field value).resolver = .ok after) (hne : after ≠ before) :
    c.Loses field value := by
  constructor
  · rw [Store.write?, hold, Option.map_some, if_pos hequal]
  · have hempty : (Document.empty : Document Unit).WellFormed := Document.Reachable.empty.wellFormed
    rw [Template.shown_eq _ _ hempty, Template.shown_eq _ _ hempty, hbefore, hafter]
    intro h
    exact hne (Option.some.inj (Except.ok.inj h))

/-- The value of an expression as a paragraph. -/
def paragraph (e : Expression) : Template where
  roots := [(⟨"p", [], {}⟩, [.text [.expression e]])]

/-- Writes are skipped that a render would have shown: one that reorders the members of a mapping, one of a
whole number that is rounded to the same double, one that represents a number otherwise in a sequence that
is compared loosely, and one that does so for a number on whose representation a computed field depends. -/
theorem loses_strictly_equal :
    (ofTemplate titledList [] [("title", .null), ("m", .object [("a", .string "x"), ("b", .string "y")])]).Loses
        "m" (.object [("b", .string "y"), ("a", .string "x")]) ∧
      (ofTemplate (paragraph (naming "m")) [] [("m", .number (.integer 9007199254740992))]).Loses
        "m" (.number (.integer 9007199254740993)) ∧
      (ofTemplate (paragraph ⟨"m == n", .binary .looseEqual (.path ⟨"m", []⟩) (.path ⟨"n", []⟩)⟩) []
          [("m", .array [.number (.integer 2)]), ("n", .array [.number (.integer 2)])]).Loses
        "m" (.array [.number (.float 2)]) ∧
      (ofTemplate (paragraph (naming "kind"))
          [("kind", fun store =>
            match store.find? "m" with
            | some (.number n) => .bool n.isInteger
            | _ => .null)]
          [("m", .number (.integer 2))]).Loses
        "m" (.number (.float 2)) := by
  refine ⟨loses_of_trees rfl ?_ rfl rfl ?_, loses_of_trees rfl ?_ rfl rfl ?_, loses_of_trees rfl ?_ rfl rfl ?_,
    loses_of_trees rfl ?_ rfl rfl ?_⟩
  · decide +kernel
  · change Snapshot.element "ul" [] [] [] [] [.text "null", .element "li" [] [] [] [] [.text "y"],
        .element "li" [] [] [] [] [.text "x"]] ≠
      .element "ul" [] [] [] [] [.text "null", .element "li" [] [] [] [] [.text "x"],
        .element "li" [] [] [] [] [.text "y"]]
    simp
  · decide +kernel
  · change Snapshot.element "p" [] [] [] [] [.text "9007199254740993"] ≠
      .element "p" [] [] [] [] [.text "9007199254740992"]
    simp
  · decide +kernel
  · change Snapshot.element "p" [] [] [] [] [.text "false"] ≠ .element "p" [] [] [] [] [.text "true"]
    simp
  · decide +kernel
  · change Snapshot.element "p" [] [] [] [] [.text "false"] ≠ .element "p" [] [] [] [] [.text "true"]
    simp

end Component

end ReactiveTemplate
