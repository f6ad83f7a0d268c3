import ReactiveTemplate.Proofs.Expression.Parsing

/-!
# What the value of an expression depends on

`&&` and `||` leave their right sides alone when the left sides decide, but what they give is what they give
of both sides. So evaluation is that of a total function on the values of the variables, as long as all of
them are bound, and it fails for nothing but a variable that is not. The variables are those that the
expression lists.
-/

namespace ReactiveTemplate

open Json

/-- The meaning of a name where frames, the innermost first, are open before a resolver. -/
inductive Scope.Binds (resolver : Resolver) : List Frame → String → Value → Prop where
  | here {frame : Frame} {frames : List Frame} {name : String} {value : Value}
      (h : frame.lookup name = some value) : Binds resolver (frame :: frames) name value
  | outward {frame : Frame} {frames : List Frame} {name : String} {value : Value}
      (hfree : frame.lookup name = none) (h : Binds resolver frames name value) :
      Binds resolver (frame :: frames) name value
  | behind {name : String} {value : Value} (h : resolver name = some value) : Binds resolver [] name value

/-- A name means what it resolves to. -/
theorem Scope.binds_iff {scope : Scope} {resolver : Resolver} {name : String} {value : Value} :
    Binds resolver scope.frames name value ↔ scope.resolve resolver name = some value := by
  obtain ⟨frames⟩ := scope
  induction frames with
  | nil =>
    refine ⟨fun h => ?_, fun h => .behind h⟩
    cases h with
    | behind h => exact h
  | cons frame frames ih =>
    rw [show (⟨frame :: frames⟩ : Scope) = Scope.push frame ⟨frames⟩ from rfl, resolve_push]
    cases hfound : frame.lookup name with
    | none =>
      rw [Option.none_or, ← ih]
      refine ⟨fun h => ?_, fun h => .outward hfound h⟩
      cases h with
      | here h => simp [hfound] at h
      | outward _ h => exact h
    | some found =>
      rw [Option.some_or, Option.some.injEq]
      refine ⟨fun h => ?_, fun h => .here (hfound.trans (congrArg some h))⟩
      cases h with
      | here h => exact Option.some.inj (hfound.symm.trans h)
      | outward hfree _ => simp [hfound] at hfree

namespace Expression

/-! ### The variables of a tree -/

/-- The roots found behind some others are those of the tree. -/
theorem Tree.mem_go {tree : Tree} {found : List String} {name : String} :
    name ∈ variableNames.go tree found ↔ name ∈ found ∨ tree.Mentions name := by
  induction tree generalizing found with
  | constant value => simp [variableNames.go, Mentions]
  | path p =>
    rw [variableNames.go, Mentions]
    split
    · next hmem => exact ⟨Or.inl, fun h => h.elim id fun heq => heq ▸ hmem⟩
    · rw [List.mem_append, List.mem_singleton, eq_comm]
  | not operand ih => exact ih
  | binary operator left right ihleft ihright => rw [variableNames.go, ihright, ihleft, Mentions, or_assoc]

/-- The names that a tree lists are the roots of its paths. -/
theorem Tree.mem_variableNames {tree : Tree} {name : String} :
    name ∈ tree.variableNames ↔ tree.Mentions name := by
  rw [variableNames, mem_go]
  exact ⟨fun h => h.resolve_left List.not_mem_nil, Or.inr⟩

/-! ### Strict evaluation -/

/-- The value of a tree where every variable has one: both sides of each operator are computed. -/
def Tree.value (environment : String → Value) : Tree → Value
  | constant value => value
  | path p => p.steps.foldl Step.apply (environment p.root)
  | not operand => .bool (!(operand.value environment).truthy)
  | binary operator left right => operator.apply (left.value environment) (right.value environment)

/-- An operator whose left side decides gives that side, whatever the right one is. -/
theorem Operator.apply_of_decides {operator : Operator} {left : Value}
    (h : Tree.decides operator left = true) (right : Value) : operator.apply left right = left := by
  cases operator with
  | both =>
    have hfalse : left.truthy = false := by simpa [Tree.decides] using h
    rw [apply, hfalse, if_neg (by decide)]
  | either => exact if_pos h
  | _ => cases h

/-- A tree whose variables are bound evaluates to the value that strict evaluation gives it. -/
theorem Tree.eval_eq_value {tree : Tree} {scope : Scope} {resolver : Resolver} {environment : String → Value}
    (h : ∀ name, tree.Mentions name → scope.resolve resolver name = some (environment name)) :
    tree.eval scope resolver = .ok (tree.value environment) := by
  induction tree with
  | constant value => rfl
  | path p =>
    rw [eval, Path.eval, h p.root rfl]
    rfl
  | not operand ih =>
    rw [eval, ih h]
    rfl
  | binary operator left right ihleft ihright =>
    rw [eval, ihleft fun name hname => h name (Or.inl hname), ihright fun name hname => h name (Or.inr hname)]
    show (if decides operator (left.value environment) then _ else _) = _
    split
    · next hdecides => exact congrArg Except.ok (Operator.apply_of_decides hdecides _).symm
    · rfl

/-! ### The variables decide -/

/-- Where all variables that an expression lists are bound, its value is that of strict evaluation. If it fails,
one of these variables is to blame, which no frame and no resolver binds. And where the same variables have the
same meanings, or none, the result is the same. -/
theorem eval_of_variables (e : Expression) (scope : Scope) (resolver : Resolver) :
    ((∀ name ∈ e.tree.variableNames, ∃ value, Scope.Binds resolver scope.frames name value) →
        ∃ environment : String → Value,
          (∀ name ∈ e.tree.variableNames, Scope.Binds resolver scope.frames name (environment name)) ∧
            e.eval scope resolver = .ok (e.tree.value environment)) ∧
      (∀ error, e.eval scope resolver = .error error →
        error.kind = .variable ∧ error.name ∈ e.tree.variableNames ∧
          (∀ frame ∈ scope.frames, frame.lookup error.name = none) ∧ resolver error.name = none) ∧
      ∀ (scope' : Scope) (resolver' : Resolver),
        (∀ name ∈ e.tree.variableNames, ∀ value, Scope.Binds resolver scope.frames name value ↔
          Scope.Binds resolver' scope'.frames name value) →
        e.eval scope resolver = e.eval scope' resolver' := by
  refine ⟨fun hbound => ?_, fun error herror => ?_, fun scope' resolver' hagree => ?_⟩
  · choose! environment henvironment using hbound
    exact ⟨environment, henvironment, Tree.eval_eq_value fun name hname =>
      Scope.binds_iff.mp (henvironment name (Tree.mem_variableNames.mpr hname))⟩
  · obtain ⟨hkind, hmentions, hnone⟩ := Tree.unresolved_of_eval herror
    obtain ⟨hframes, hresolver⟩ := Option.or_eq_none_iff.mp hnone
    exact ⟨hkind, Tree.mem_variableNames.mpr hmentions, List.findSome?_eq_none_iff.mp hframes, hresolver⟩
  · refine (Tree.eval_agrees likeness_eq (fun _ _ => trivial) fun name hname => ?_).eq
    have hsame : scope.resolve resolver name = scope'.resolve resolver' name := by
      ext value
      rw [← Scope.binds_iff, ← Scope.binds_iff]
      exact hagree name (Tree.mem_variableNames.mpr hname) value
    rw [hsame]
    cases scope'.resolve resolver' name with
    | none => exact .none
    | some value => exact .some rfl

/-- One variable shadows another of its name, and a second one is left to the resolver: both are bound, and the
value is that of strict evaluation, where the inner binding counts. -/
theorem eval_of_variables_shadowed :
    let e : Expression := ⟨"a || b", .binary .either (.path ⟨"a", []⟩) (.path ⟨"b", []⟩)⟩
    let scope : Scope := ⟨[[("a", .null)], [("a", .bool true)]]⟩
    let resolver : Resolver := fun name => if name = "b" then some (.string "c") else none
    (∀ name ∈ e.tree.variableNames, ∃ value, Scope.Binds resolver scope.frames name value) ∧
      ∃ environment : String → Value, environment "a" = .null ∧ environment "b" = .string "c" ∧
        e.eval scope resolver = .ok (e.tree.value environment) := by
  intro e scope resolver
  have ha : Scope.Binds resolver scope.frames "a" .null := .here rfl
  have hb : Scope.Binds resolver scope.frames "b" (.string "c") := .outward rfl (.outward rfl (.behind rfl))
  have hnames : e.tree.variableNames = ["a", "b"] := by decide
  have hbound : ∀ name ∈ e.tree.variableNames, ∃ value, Scope.Binds resolver scope.frames name value := by
    rw [hnames]
    intro name hname
    rcases List.mem_cons.mp hname with rfl | hname
    · exact ⟨_, ha⟩
    · exact ⟨_, List.mem_singleton.mp hname ▸ hb⟩
  obtain ⟨environment, henvironment, hvalue⟩ := (eval_of_variables e scope resolver).1 hbound
  -- A name has one meaning, so the environment is known where it matters.
  have hmeaning {name : String} {value : Value} (hname : name ∈ e.tree.variableNames)
      (h : Scope.Binds resolver scope.frames name value) : environment name = value :=
    Option.some.inj ((Scope.binds_iff.mp (henvironment name hname)).symm.trans (Scope.binds_iff.mp h))
  exact ⟨hbound, environment, hmeaning (by decide) ha, hmeaning (by decide) hb, hvalue⟩

end Expression

end ReactiveTemplate
