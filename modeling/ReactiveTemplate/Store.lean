import ReactiveTemplate.Expression.Operator
import ReactiveTemplate.Scope

/-!
# Data stores

A store holds the fields of a component in the order in which they were declared. Fields are only
ever overwritten, never added or removed, and a write of a strictly equal value leaves the old one.
-/

namespace ReactiveTemplate

open Json

/-- The fields of a component, and whether it was asked for one deferred action. -/
structure Store where
  fields : Dictionary Value
  followUp : Bool

namespace Store

/-- Fields whose name starts with `$` or `_` never cause a render. -/
def isPrivate (field : String) : Bool :=
  match field.toList with
  | '$' :: _ | '_' :: _ => true
  | _ => false

/-- The store without fields. -/
def empty : Store := ⟨[], false⟩

/-- What a write did. -/
inductive Write where
  /-- The value is strictly equal to the one in the store. -/
  | unchanged
  /-- The value was replaced; private fields are not reactive. -/
  | changed (reactive : Bool)
  deriving DecidableEq, Repr

/-- The store of a mapping; null stands for no data, other values are no data at all. -/
def ofValue? : Value → Option Store
  | .object members => some ⟨members, false⟩
  | .null => some empty
  | _ => none

/-- The value of a field. -/
def find? (store : Store) (field : String) : Option Value :=
  store.fields.lookup field

/-- Whether a field was declared. -/
def has (store : Store) (field : String) : Bool :=
  (store.find? field).isSome

/-- The store as a resolver. -/
def resolver (store : Store) : Resolver :=
  store.find?

/-- Whether a write to a field can cause a render. -/
def isReactive (store : Store) (field : String) : Bool :=
  store.has field && !isPrivate field

/-- A write to a declared field, and the store after it. -/
def write? (store : Store) (field : String) (value : Value) : Option (Write × Store) :=
  (store.find? field).map fun old =>
    if Expression.strictEqual old value then (.unchanged, store)
    else (.changed (!isPrivate field), { store with fields := Dictionary.put field value store.fields })

/-- The store asked for one deferred action. -/
def requestFollowUp (store : Store) : Store :=
  { store with followUp := true }

/-- Whether a deferred action was asked for, and the store without the request. -/
def takeFollowUp (store : Store) : Bool × Store :=
  (store.followUp, { store with followUp := false })

/-- The fields as one mapping. -/
def toValue (store : Store) : Value :=
  .object store.fields

end Store

end ReactiveTemplate
