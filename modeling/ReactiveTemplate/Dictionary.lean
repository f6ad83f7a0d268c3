/-!
# Dictionaries in insertion order

A dictionary is a list of named values. Writing a name that is there keeps its place; a new name
goes to the end. A dictionary built by `put` from the empty one holds each name once.
-/

namespace ReactiveTemplate

/-- Named values in the order in which their names came in. -/
abbrev Dictionary (α : Type) := List (String × α)

namespace Dictionary

variable {α : Type}

/-- The names in order. -/
def names (d : Dictionary α) : List String :=
  d.map Prod.fst

/-- The dictionary with `value` under `name`, at the place the name has or else at the end. -/
def put (name : String) (value : α) : Dictionary α → Dictionary α
  | [] => [(name, value)]
  | (bound, old) :: rest =>
    if bound = name then (bound, value) :: rest else (bound, old) :: put name value rest

/-- The dictionary without `name`. -/
def remove (name : String) (d : Dictionary α) : Dictionary α :=
  d.filter (·.1 ≠ name)

/-- Whether a name is bound. -/
def has (name : String) (d : Dictionary α) : Bool :=
  d.any (·.1 == name)

/-- The pairs put one after another into the empty dictionary. -/
def ofList (pairs : List (String × α)) : Dictionary α :=
  pairs.foldl (fun d (name, value) => put name value d) []

end Dictionary

end ReactiveTemplate
