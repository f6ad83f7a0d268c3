import ReactiveTemplate.Expression.Operator

/-!
# Strict and loose equality

Values that are strictly equal are loosely equal as well, as long as they are not compound. Sequences and
mappings are compared by size number for number in the one case, and by representation in the other, so
that what decides are the numbers that face one another inside them.
-/

namespace ReactiveTemplate.Expression

open ReactiveTemplate.Json

/-- Two numbers at the same place of two values: the values themselves, or items of the same index, or
members of the same name, and so on inwards. -/
inductive Facing : Value → Value → Number → Number → Prop where
  | here (m n : Number) : Facing (.number m) (.number n) m n
  | item {as bs : List Value} {a b : Value} {m n : Number} (index : Nat) (ha : as[index]? = some a)
      (hb : bs[index]? = some b) (h : Facing a b m n) : Facing (.array as) (.array bs) m n
  | member {as bs : List (String × Value)} {a b : Value} {m n : Number} (name : String) (ha : (name, a) ∈ as)
      (hb : bs.lookup name = some b) (h : Facing a b m n) : Facing (.object as) (.object bs) m n

/-- Whether a value is a sequence or a mapping. -/
def compound : Value → Bool
  | .array _ | .object _ => true
  | _ => false

/-- All numbers that face one another in two values are represented alike. -/
def FacesAlike (a b : Value) : Prop :=
  ∀ m n, Facing a b m n → m.same n = true

/-! ### Strict equality part by part -/

/-- Items at the same place of strictly equal lists are strictly equal. -/
theorem strictEqual_of_getElem? {as bs : List Value} (h : strictEqualItems as bs = true) {index : Nat}
    {a b : Value} (ha : as[index]? = some a) (hb : bs[index]? = some b) : strictEqual a b = true := by
  induction as generalizing bs index with
  | nil => cases ha
  | cons first as ih =>
    cases bs with
    | nil => cases hb
    | cons second bs =>
      rw [strictEqualItems, Bool.and_eq_true] at h
      cases index with
      | zero =>
        cases ha
        cases hb
        exact h.1
      | succ index => exact ih h.2 ha hb

/-- Members are strictly equal to what is found under their names. -/
theorem strictEqualMembers_iff (as bs : List (String × Value)) :
    strictEqualMembers as bs = true ↔
      ∀ member ∈ as, ∃ found, bs.lookup member.1 = some found ∧ strictEqual member.2 found = true := by
  induction as with
  | nil => simp [strictEqualMembers]
  | cons member as ih =>
    obtain ⟨name, a⟩ := member
    rw [strictEqualMembers, Bool.and_eq_true, ih, List.forall_mem_cons]
    cases bs.lookup name <;> simp

/-- Numbers that face one another in strictly equal values are equal in size. -/
theorem Facing.toFloat_beq {a b : Value} {m n : Number} (hfacing : Facing a b m n)
    (h : strictEqual a b = true) : (m.toFloat == n.toFloat) = true := by
  induction hfacing with
  | here m n => exact h
  | item index ha hb _ ih =>
    rw [strictEqual, Bool.and_eq_true] at h
    exact ih (strictEqual_of_getElem? h.2 ha hb)
  | member name ha hb _ ih =>
    rw [strictEqual, Bool.and_eq_true] at h
    obtain ⟨b, hfound, hequal⟩ := (strictEqualMembers_iff _ _).mp h.2 _ ha
    rw [hb, Option.some.injEq] at hfound
    exact ih (hfound ▸ hequal)

/-! ### The same values -/

mutual

/-- Strictly equal values are the same if all their numbers are represented alike. -/
theorem same_iff_of_strictEqual (a b : Value) (h : strictEqual a b = true) : a.same b = true ↔ FacesAlike a b := by
  cases a with
  | null =>
    cases b with
    | null => exact iff_of_true rfl nofun
    | _ => cases h
  | bool a =>
    cases b with
    | bool b => exact iff_of_true h nofun
    | _ => cases h
  | number m =>
    cases b with
    | number n =>
      refine ⟨fun hsame _ _ hfacing => ?_, fun hall => hall m n (.here m n)⟩
      cases hfacing
      exact hsame
    | _ => cases h
  | string a =>
    cases b with
    | string b => exact iff_of_true h nofun
    | _ => cases h
  | array as =>
    cases b with
    | array bs =>
      rw [strictEqual, Bool.and_eq_true, beq_iff_eq] at h
      rw [Value.same, sameItems_iff_of_strictEqual as bs h.1 h.2]
      refine ⟨fun hall m n hfacing => ?_, fun hall index a b ha hb m n hfacing => ?_⟩
      · cases hfacing with
        | item index ha hb hfacing => exact hall index _ _ ha hb m n hfacing
      · exact hall m n (.item index ha hb hfacing)
    | _ => cases h
  | object as =>
    cases b with
    | object bs =>
      rw [strictEqual, Bool.and_eq_true] at h
      rw [Value.same, h.1, Bool.true_and, sameMembers_iff_of_strictEqual as bs h.2]
      refine ⟨fun hall m n hfacing => ?_, fun hall name a b ha hb m n hfacing => ?_⟩
      · cases hfacing with
        | member name ha hb hfacing => exact hall name _ _ ha hb m n hfacing
      · exact hall m n (.member name ha hb hfacing)
    | _ => cases h

/-- The same for items, of which there are equally many. -/
theorem sameItems_iff_of_strictEqual (as bs : List Value) (hlength : as.length = bs.length)
    (h : strictEqualItems as bs = true) :
    Value.sameItems as bs = true ↔
      ∀ (index : Nat) a b, as[index]? = some a → bs[index]? = some b → FacesAlike a b := by
  cases as with
  | nil =>
    cases bs with
    | nil => exact iff_of_true rfl nofun
    | cons => cases hlength
  | cons a as =>
    cases bs with
    | nil => cases hlength
    | cons b bs =>
      rw [strictEqualItems, Bool.and_eq_true] at h
      rw [Value.sameItems, Bool.and_eq_true, same_iff_of_strictEqual a b h.1,
        sameItems_iff_of_strictEqual as bs (Nat.succ.inj hlength) h.2]
      constructor
      · intro ⟨hfirst, hrest⟩ index x y hx hy
        cases index with
        | zero =>
          cases hx
          cases hy
          exact hfirst
        | succ index => exact hrest index x y hx hy
      · exact fun hall => ⟨hall 0 a b rfl rfl, fun index => hall (index + 1)⟩

/-- The same for members, which are compared with those of their names. -/
theorem sameMembers_iff_of_strictEqual (as bs : List (String × Value)) (h : strictEqualMembers as bs = true) :
    Value.sameMembers as bs = true ↔
      ∀ name a b, (name, a) ∈ as → bs.lookup name = some b → FacesAlike a b := by
  match as with
  | [] => exact iff_of_true rfl nofun
  | (bound, first) :: rest =>
    obtain ⟨found, hfound, hequal⟩ := (strictEqualMembers_iff _ _).mp h _ List.mem_cons_self
    rw [strictEqualMembers, Bool.and_eq_true] at h
    rw [Value.sameMembers, hfound, Bool.and_eq_true, same_iff_of_strictEqual first found hequal,
      sameMembers_iff_of_strictEqual rest bs h.2]
    constructor
    · intro ⟨hfirst, hrest⟩ name a b ha hb
      rcases List.mem_cons.mp ha with heq | ha
      · cases heq
        rw [hfound, Option.some.injEq] at hb
        exact hb ▸ hfirst
      · exact hrest name a b ha hb
    · exact fun hall => ⟨hall bound first found List.mem_cons_self hfound,
        fun name a b ha => hall name a b (List.mem_cons_of_mem _ ha)⟩

end

/-! ### Loose equality of strictly equal values -/

/-- Strictly equal values that are not compound are loosely equal. -/
theorem looseEqual_of_strictEqual {a b : Value} (ha : compound a = false) (h : strictEqual a b = true) :
    looseEqual a b = true := by
  cases a with
  | null =>
    cases b with
    | null => rfl
    | _ => cases h
  | bool a =>
    cases b with
    | bool b =>
      obtain rfl := eq_of_beq h
      cases a <;> decide
    | _ => cases h
  | number m =>
    cases b with
    | number n => exact h
    | _ => cases h
  | string a =>
    cases b with
    | string b => exact h
    | _ => cases h
  | array as => cases ha
  | object as => cases ha

/-- Strictly equal compound values are loosely equal if they are the same. -/
theorem looseEqual_eq_same {a b : Value} (ha : compound a = true) (h : strictEqual a b = true) :
    looseEqual a b = a.same b := by
  cases a with
  | array as =>
    cases b with
    | array bs => rfl
    | _ => cases h
  | object as =>
    cases b with
    | object bs => rfl
    | _ => cases h
  | _ => cases ha

/-- Of two values that are strictly equal, all numbers that face one another are equal in size. The values are
also loosely equal, unless they are compound and two of these numbers are represented differently. -/
theorem Operator.looseEqual_iff_of_strictEqual (a b : Value)
    (h : Operator.strictEqual.apply a b = .bool true) :
    (∀ m n, Facing a b m n → (m.toFloat == n.toFloat) = true) ∧
      (Operator.looseEqual.apply a b = .bool true ↔
        (compound a = true → FacesAlike a b)) := by
  have hequal : Expression.strictEqual a b = true := Value.bool.inj h
  refine ⟨fun m n hfacing => hfacing.toFloat_beq hequal, ?_⟩
  rw [Operator.apply, Value.bool.injEq]
  cases hcompound : compound a with
  | false => exact iff_of_true (looseEqual_of_strictEqual hcompound hequal) nofun
  | true =>
    rw [looseEqual_eq_same hcompound hequal, same_iff_of_strictEqual a b hequal]
    exact ⟨fun hall _ => hall, fun hall => hall rfl⟩

/-- A mapping equals the one with the same members in another order, strictly and loosely. -/
theorem Operator.looseEqual_iff_of_strictEqual_nested :
    let a := Value.object [("x", .array [.number (.integer 1), .string "a"]), ("y", .null)]
    let b := Value.object [("y", .null), ("x", .array [.number (.integer 1), .string "a"])]
    Operator.strictEqual.apply a b = .bool true ∧ Operator.looseEqual.apply a b = .bool true ∧ FacesAlike a b := by
  intro a b
  have hstrict : Operator.strictEqual.apply a b = .bool true := congrArg Value.bool (by decide +kernel)
  have hloose : Operator.looseEqual.apply a b = .bool true := congrArg Value.bool (by decide +kernel)
  exact ⟨hstrict, hloose, (Operator.looseEqual_iff_of_strictEqual a b hstrict).2.mp hloose rfl⟩

/-- A sequence with a whole number and one with the double of that size are strictly equal, but not loosely. -/
theorem Operator.strictEqual_not_looseEqual :
    let a := Value.array [.number (.integer 1)]
    let b := Value.array [.number (.float 1)]
    Operator.strictEqual.apply a b = .bool true ∧ Operator.looseEqual.apply a b = .bool false :=
  ⟨congrArg Value.bool (by decide +kernel), congrArg Value.bool (by decide +kernel)⟩

end ReactiveTemplate.Expression
