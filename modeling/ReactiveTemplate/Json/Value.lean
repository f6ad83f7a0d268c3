import ReactiveTemplate.Dictionary

/-!
# JSON values

Numbers come in two representations, whole numbers and doubles; the members of an object keep their
order. `Value.same` compares values representation by representation, objects without regard to the
order of their members.
-/

namespace ReactiveTemplate.Json

/-- A number: a whole number between `-2 ^ 63` and `2 ^ 64 - 1`, or a double. -/
inductive Number where
  | integer (n : Int)
  | float (x : Float)

namespace Number

/-- The double nearest to a number. -/
def toFloat : Number → Float
  | integer n => Float.ofInt n
  | float x => x

/-- The same representation and the same number; a double that is not a number differs from itself. -/
def same : Number → Number → Bool
  | integer m, integer n => m == n
  | float x, float y => x == y
  | _, _ => false

end Number

/-- A JSON value. -/
inductive Value where
  | null
  | bool (flag : Bool)
  | number (number : Number)
  | string (text : String)
  | array (items : List Value)
  | object (members : List (String × Value))

instance : Inhabited Value := ⟨.null⟩

namespace Value

/-- A whole number that is not negative. -/
def ofNat (n : Nat) : Value :=
  .number (.integer n)

mutual

/-- The same kind and the same content, numbers by representation. -/
def same : Value → Value → Bool
  | .null, .null => true
  | .bool a, .bool b => a == b
  | .number a, .number b => a.same b
  | .string a, .string b => a == b
  | .array as, .array bs => sameItems as bs
  | .object as, .object bs => as.length == bs.length && sameMembers as bs
  | _, _ => false

/-- The same values place by place. -/
def sameItems : List Value → List Value → Bool
  | [], [] => true
  | a :: as, b :: bs => same a b && sameItems as bs
  | _, _ => false

/-- Every member of the first list is in the second, under the same name and with the same value. -/
def sameMembers : List (String × Value) → List (String × Value) → Bool
  | [], _ => true
  | (name, a) :: rest, others =>
    (match others.lookup name with
      | some b => same a b
      | none => false) && sameMembers rest others

end

end Value

end ReactiveTemplate.Json
