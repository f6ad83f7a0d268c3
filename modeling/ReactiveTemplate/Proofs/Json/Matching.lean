import ReactiveTemplate.Proofs.Json.Alike
import ReactiveTemplate.Proofs.Render.Reading

/-!
# Values that match

Two values match if they differ in their numbers alone and these are related place by place. If related
numbers are alike, no operation of a template tells the values apart but one: loose equality compares what
is inside sequences and mappings by representation.
-/

namespace ReactiveTemplate.Json

open ReactiveTemplate.Decimal ReactiveTemplate.Expression

namespace Value

mutual

/-- The same values but for the numbers, which are related: inside sequences and mappings by `inner`, and
by `outer` otherwise. -/
inductive Matches (inner : Number → Number → Prop) : (outer : Number → Number → Prop) → Value → Value → Prop where
  | null {outer : Number → Number → Prop} : Matches inner outer .null .null
  | bool {outer : Number → Number → Prop} (flag : Bool) : Matches inner outer (.bool flag) (.bool flag)
  | number {outer : Number → Number → Prop} {m n : Number} (h : outer m n) :
      Matches inner outer (.number m) (.number n)
  | string {outer : Number → Number → Prop} (text : String) : Matches inner outer (.string text) (.string text)
  | array {outer : Number → Number → Prop} {as bs : List Value} (h : MatchesItems inner as bs) :
      Matches inner outer (.array as) (.array bs)
  | object {outer : Number → Number → Prop} {as bs : List (String × Value)} (h : MatchesMembers inner as bs) :
      Matches inner outer (.object as) (.object bs)

/-- Items that match place by place. -/
inductive MatchesItems (inner : Number → Number → Prop) : List Value → List Value → Prop where
  | nil : MatchesItems inner [] []
  | cons {a b : Value} {as bs : List Value} (h : Matches inner inner a b) (rest : MatchesItems inner as bs) :
      MatchesItems inner (a :: as) (b :: bs)

/-- Members that match place by place, under the same names. -/
inductive MatchesMembers (inner : Number → Number → Prop) :
    List (String × Value) → List (String × Value) → Prop where
  | nil : MatchesMembers inner [] []
  | cons {name : String} {a b : Value} {as bs : List (String × Value)} (h : Matches inner inner a b)
      (rest : MatchesMembers inner as bs) : MatchesMembers inner ((name, a) :: as) ((name, b) :: bs)

end

variable {inner outer inner' outer' : Number → Number → Prop} {a a' b b' : Value}

mutual

/-- A value matches itself. -/
theorem Matches.refl (hinner : ∀ n, inner n n) {outer : Number → Number → Prop} (houter : ∀ n, outer n n)
    (v : Value) : Matches inner outer v v := by
  cases v with
  | null => exact .null
  | bool flag => exact .bool flag
  | number n => exact .number (houter n)
  | string text => exact .string text
  | array items => exact .array (MatchesItems.refl hinner items)
  | object members => exact .object (MatchesMembers.refl hinner members)

/-- Items match themselves. -/
theorem MatchesItems.refl (hinner : ∀ n, inner n n) (items : List Value) : MatchesItems inner items items := by
  match items with
  | [] => exact .nil
  | item :: rest => exact .cons (Matches.refl hinner hinner item) (MatchesItems.refl hinner rest)

/-- Members match themselves. -/
theorem MatchesMembers.refl (hinner : ∀ n, inner n n) (members : List (String × Value)) :
    MatchesMembers inner members members := by
  match members with
  | [] => exact .nil
  | (_, value) :: rest => exact .cons (Matches.refl hinner hinner value) (MatchesMembers.refl hinner rest)

end

mutual

/-- Weaker relations between the numbers. -/
theorem Matches.mono {outer outer' : Number → Number → Prop} {a b : Value}
    (hinner : ∀ m n, inner m n → inner' m n) (houter : ∀ m n, outer m n → outer' m n)
    (h : Matches inner outer a b) : Matches inner' outer' a b := by
  match h with
  | .null => exact .null
  | .bool flag => exact .bool flag
  | .number h => exact .number (houter _ _ h)
  | .string text => exact .string text
  | .array h => exact .array (MatchesItems.mono hinner h)
  | .object h => exact .object (MatchesMembers.mono hinner h)

/-- Weaker relations between the numbers of items. -/
theorem MatchesItems.mono {as bs : List Value} (hinner : ∀ m n, inner m n → inner' m n)
    (h : MatchesItems inner as bs) : MatchesItems inner' as bs := by
  match h with
  | .nil => exact .nil
  | .cons h rest => exact .cons (Matches.mono hinner hinner h) (MatchesItems.mono hinner rest)

/-- Weaker relations between the numbers of members. -/
theorem MatchesMembers.mono {as bs : List (String × Value)} (hinner : ∀ m n, inner m n → inner' m n)
    (h : MatchesMembers inner as bs) : MatchesMembers inner' as bs := by
  match h with
  | .nil => exact .nil
  | .cons h rest => exact .cons (Matches.mono hinner hinner h) (MatchesMembers.mono hinner rest)

end

/-! ### Parts of values that match -/

/-- Items at one place match. -/
theorem MatchesItems.getElem? {as bs : List Value} (h : MatchesItems inner as bs) (n : Nat) :
    Option.Rel (Matches inner inner) as[n]? bs[n]? := by
  match h, n with
  | .nil, _ => exact .none
  | .cons h _, 0 => exact .some h
  | .cons _ rest, n + 1 => exact MatchesItems.getElem? rest n

/-- Members of one name match. -/
theorem MatchesMembers.lookup {as bs : List (String × Value)} (h : MatchesMembers inner as bs) (name : String) :
    Option.Rel (Matches inner inner) (as.lookup name) (bs.lookup name) := by
  match h with
  | .nil => exact .none
  | .cons h rest =>
    rw [Dictionary.lookup_cons, Dictionary.lookup_cons]
    split
    · exact .some h
    · exact MatchesMembers.lookup rest name

/-- Items that match place by place. -/
theorem MatchesItems.forall₂ {as bs : List Value} (h : MatchesItems inner as bs) :
    List.Forall₂ (Matches inner inner) as bs := by
  match h with
  | .nil => exact .nil
  | .cons h rest => exact .cons h (MatchesItems.forall₂ rest)

/-- Members that match place by place. -/
theorem MatchesMembers.forall₂ {as bs : List (String × Value)} (h : MatchesMembers inner as bs) :
    List.Forall₂ (fun m m' => m.1 = m'.1 ∧ Matches inner inner m.2 m'.2) as bs := by
  match h with
  | .nil => exact .nil
  | .cons h rest => exact .cons ⟨rfl, h⟩ (MatchesMembers.forall₂ rest)

/-! ### What values are that match -/

/-- Values that match are of one kind. -/
theorem Matches.kindName (h : Matches inner outer a b) : a.kindName = b.kindName := by
  cases h <;> rfl

/-- Values with numbers that are alike hold as conditions together. -/
theorem Matches.truthy (h : Matches inner Number.Alike a b) : a.truthy = b.truthy := by
  cases h with
  | number h =>
    have hzero := h.toFloat.beq (SameFloat.refl 0)
    have hnan : Float.isNaN _ = Float.isNaN _ := h.toFloat.congr (by decide)
    rw [Value.truthy, Value.truthy, hzero, hnan]
  | _ => rfl

mutual

/-- Values with numbers that are alike are shown alike. -/
theorem Matches.display {a b : Value} (h : Matches Number.Alike Number.Alike a b) : a.display = b.display := by
  match h with
  | .null => rfl
  | .bool _ => rfl
  | .number h => exact h.display
  | .string _ => rfl
  | .array h => rw [Value.display, Value.display, MatchesItems.displayItems h]
  | .object _ => rw [Value.display, Value.display]

/-- Items with numbers that are alike are shown alike. -/
theorem MatchesItems.displayItems {as bs : List Value} (h : MatchesItems Number.Alike as bs) :
    Value.displayItems as = Value.displayItems bs := by
  match h with
  | .nil => rfl
  | .cons h rest =>
    have hitem := Matches.display h
    have hrest := MatchesItems.displayItems rest
    cases h <;> simp only [Value.displayItems, hitem, hrest]

end

/-- Values with numbers that are alike are the same number. -/
theorem Matches.toNumber {a b : Value} (h : Matches Number.Alike Number.Alike a b) :
    SameFloat a.toNumber b.toNumber := by
  match h with
  | .null => exact .refl _
  | .bool _ => exact .refl _
  | .number h => exact h.toFloat
  | .string _ => exact .refl _
  | .array .nil => exact .refl _
  | .array (.cons h .nil) =>
    rw [Value.toNumber, Value.toNumber]
    exact Matches.toNumber h
  | .array (.cons _ (.cons _ _)) => exact .refl _
  | .object _ => exact .refl _

/-- A step leads to values that match, if a value matches itself. -/
theorem Matches.step (hrefl : ∀ v, Matches inner outer v v) (hweak : ∀ m n, inner m n → outer m n)
    (h : Matches inner outer a b) (step : Step) : Matches inner outer (step.apply a) (step.apply b) := by
  have hfound {found found' : Option Value} (h : Option.Rel (Matches inner inner) found found') :
      Matches inner outer (found.getD .null) (found'.getD .null) := by
    cases h with
    | some h => exact h.mono (fun _ _ => id) hweak
    | none => exact .null
  cases h with
  | array hitems =>
    cases step with
    | key name =>
      rw [Step.apply, Step.apply, hitems.forall₂.length_eq]
      exact hrefl _
    | index n => exact hfound (hitems.getElem? n)
  | object hmembers =>
    cases step with
    | key name => exact hfound (hmembers.lookup name)
    | index n => exact hfound (hmembers.lookup (toString n))
  | number h => cases step <;> exact .null
  | _ => exact hrefl _

end Value

/-! ### Operators -/

namespace Value

variable {a a' b b' : Value}

mutual

/-- Values with numbers that are alike are strictly equal to the same values. -/
theorem Matches.strictEqual {a a' b b' : Value} (ha : Matches Number.Alike Number.Alike a a')
    (hb : Matches Number.Alike Number.Alike b b') : strictEqual a b = strictEqual a' b' := by
  cases ha with
  | number ha =>
    cases hb with
    | number hb => exact ha.toFloat.beq hb.toFloat
    | _ => rfl
  | array ha =>
    cases hb with
    | array hb =>
      rw [Expression.strictEqual, Expression.strictEqual, ha.forall₂.length_eq, hb.forall₂.length_eq,
        MatchesItems.strictEqualItems ha hb]
    | _ => rfl
  | object ha =>
    cases hb with
    | object hb =>
      rw [Expression.strictEqual, Expression.strictEqual, ha.forall₂.length_eq, hb.forall₂.length_eq,
        MatchesMembers.strictEqualMembers ha hb]
    | _ => rfl
  | _ => cases hb <;> rfl

/-- The same for items. -/
theorem MatchesItems.strictEqualItems {as as' bs bs' : List Value} (ha : MatchesItems Number.Alike as as')
    (hb : MatchesItems Number.Alike bs bs') : strictEqualItems as bs = strictEqualItems as' bs' := by
  match ha, hb with
  | .nil, .nil => rfl
  | .nil, .cons _ _ => rfl
  | .cons _ _, .nil => rfl
  | .cons ha hrest, .cons hb hrest' =>
    rw [Expression.strictEqualItems, Expression.strictEqualItems, Matches.strictEqual ha hb,
      MatchesItems.strictEqualItems hrest hrest']

/-- The same for members. -/
theorem MatchesMembers.strictEqualMembers {as as' bs bs' : List (String × Value)}
    (ha : MatchesMembers Number.Alike as as') (hb : MatchesMembers Number.Alike bs bs') :
    strictEqualMembers as bs = strictEqualMembers as' bs' := by
  cases ha with
  | nil => rfl
  | @cons name _ _ _ _ ha hrest =>
    rw [Expression.strictEqualMembers, Expression.strictEqualMembers,
      MatchesMembers.strictEqualMembers hrest hb]
    have hfound := hb.lookup name
    generalize bs.lookup name = found, bs'.lookup name = found' at hfound
    cases hfound with
    | none => rfl
    | some hfound =>
      dsimp only
      rw [Matches.strictEqual ha hfound]

end

mutual

/-- Values with numbers that are alike and represented alike are the same to any others. -/
theorem Matches.same {exact : Prop} (hexact : exact) {a a' b b' : Value}
    (ha : Matches (Number.Closely exact) (Number.Closely exact) a a')
    (hb : Matches (Number.Closely exact) (Number.Closely exact) b b') : a.same b = a'.same b' := by
  cases ha with
  | number ha =>
    cases hb with
    | number hb => exact ha.same hexact hb
    | _ => rfl
  | array ha =>
    cases hb with
    | array hb => exact MatchesItems.sameItems hexact ha hb
    | _ => rfl
  | object ha =>
    cases hb with
    | object hb =>
      rw [Value.same, Value.same, ha.forall₂.length_eq, hb.forall₂.length_eq,
        MatchesMembers.sameMembers hexact ha hb]
    | _ => rfl
  | _ => cases hb <;> rfl

/-- The same for items. -/
theorem MatchesItems.sameItems {exact : Prop} (hexact : exact) {as as' bs bs' : List Value}
    (ha : MatchesItems (Number.Closely exact) as as') (hb : MatchesItems (Number.Closely exact) bs bs') :
    Value.sameItems as bs = Value.sameItems as' bs' := by
  match ha, hb with
  | .nil, .nil => rfl
  | .nil, .cons _ _ => rfl
  | .cons _ _, .nil => rfl
  | .cons ha hrest, .cons hb hrest' =>
    rw [Value.sameItems, Value.sameItems, Matches.same hexact ha hb,
      MatchesItems.sameItems hexact hrest hrest']

/-- The same for members. -/
theorem MatchesMembers.sameMembers {exact : Prop} (hexact : exact) {as as' bs bs' : List (String × Value)}
    (ha : MatchesMembers (Number.Closely exact) as as') (hb : MatchesMembers (Number.Closely exact) bs bs') :
    Value.sameMembers as bs = Value.sameMembers as' bs' := by
  cases ha with
  | nil => rfl
  | @cons name _ _ _ _ ha hrest =>
    rw [Value.sameMembers, Value.sameMembers, MatchesMembers.sameMembers hexact hrest hb]
    have hfound := hb.lookup name
    generalize bs.lookup name = found, bs'.lookup name = found' at hfound
    cases hfound with
    | none => rfl
    | some hfound =>
      dsimp only
      rw [Matches.same hexact ha hfound]

end

/-- Values with numbers that are alike come before the same values. -/
theorem Matches.less (ha : Matches Number.Alike Number.Alike a a') (hb : Matches Number.Alike Number.Alike b b') :
    less a b = less a' b' := by
  have hnumbers : decide (a.toNumber < b.toNumber) = decide (a'.toNumber < b'.toNumber) := by
    rw [decide_eq_decide]
    exact ha.toNumber.lt_iff hb.toNumber
  cases ha with
  | string text =>
    cases hb with
    | string other => rfl
    | _ => exact hnumbers
  | _ => exact hnumbers

/-- Values with numbers that are alike have the same sums. -/
theorem Matches.add (ha : Matches Number.Alike Number.Alike a a') (hb : Matches Number.Alike Number.Alike b b') :
    add a b = add a' b' := by
  have hjoins {v v' : Value} (h : Matches Number.Alike Number.Alike v v') : joins v = joins v' := by
    cases h <;> rfl
  rw [Expression.add, Expression.add, hjoins ha, hjoins hb, ha.display, hb.display,
    ofFloat_congr (ha.toNumber.add hb.toNumber)]

/-- Values with numbers that are alike have the same differences. -/
theorem Matches.subtract (ha : Matches Number.Alike Number.Alike a a')
    (hb : Matches Number.Alike Number.Alike b b') :
    ofFloat (a.toNumber - b.toNumber) = ofFloat (a'.toNumber - b'.toNumber) :=
  ofFloat_congr (ha.toNumber.sub hb.toNumber)

/-- Values that resemble one another: numbers that are alike, and represented alike inside sequences and
mappings if that matters. -/
def Resembles (exact : Prop) : Value → Value → Prop :=
  Matches (Number.Closely exact) Number.Alike

namespace Resembles

variable {exact : Prop}

/-- A value resembles itself. -/
theorem refl (v : Value) : Resembles exact v v :=
  Matches.refl (fun n => ⟨.refl n, fun _ => rfl⟩) .refl v

/-- The numbers of values that resemble one another are alike. -/
theorem alike (h : Resembles exact a b) : Matches Number.Alike Number.Alike a b :=
  Matches.mono (fun _ _ => And.left) (fun _ _ => id) h

/-- Values that resemble one another are loosely equal to the same values, if representation matters. -/
theorem looseEqual (hexact : exact) (ha : Resembles exact a a') (hb : Resembles exact b b') :
    looseEqual a b = looseEqual a' b' := by
  have hnumbers : numericEqual a b = numericEqual a' b' := ha.alike.toNumber.beq hb.alike.toNumber
  have hshown : (a.display == b.display) = (a'.display == b'.display) := by
    rw [ha.alike.display, hb.alike.display]
  have heither : (a.display == b.display || numericEqual a b) =
      (a'.display == b'.display || numericEqual a' b') := by
    rw [hshown, hnumbers]
  cases ha with
  | null => cases hb <;> rfl
  | array ha =>
    cases hb with
    | null => rfl
    | array hb => exact Matches.same hexact (.array ha) (.array hb)
    | object hb => rfl
    | _ => exact heither
  | object ha =>
    cases hb with
    | null => rfl
    | array hb => rfl
    | object hb => exact Matches.same hexact (.object ha) (.object hb)
    | _ => exact heither
  | string text =>
    cases hb with
    | null => rfl
    | string other => rfl
    | array _ => exact heither
    | object _ => exact heither
    | _ => exact hnumbers
  | _ =>
    cases hb with
    | null => rfl
    | array _ => exact heither
    | object _ => exact heither
    | _ => exact hnumbers

/-- Operators take values that resemble one another to values that do, loose equality only if
representation matters. -/
theorem operator {o : Operator} (hallowed : o = .looseEqual → exact) (ha : Resembles exact a a')
    (hb : Resembles exact b b') : Resembles exact (o.apply a b) (o.apply a' b') := by
  have hsame {v v' : Value} (h : v = v') : Resembles exact v v' := h ▸ .refl v
  cases o with
  | add => exact hsame (ha.alike.add hb.alike)
  | subtract => exact hsame (ha.alike.subtract hb.alike)
  | less => exact hsame (congrArg Value.bool (ha.alike.less hb.alike))
  | greater => exact hsame (congrArg Value.bool (hb.alike.less ha.alike))
  | both =>
    rw [Operator.apply, Operator.apply, ha.alike.truthy]
    split
    · exact hb
    · exact ha
  | either =>
    rw [Operator.apply, Operator.apply, ha.alike.truthy]
    split
    · exact ha
    · exact hb
  | looseEqual => exact hsame (congrArg Value.bool (looseEqual (hallowed rfl) ha hb))
  | strictEqual => exact hsame (congrArg Value.bool (ha.alike.strictEqual hb.alike))
  | strictDiffer => exact hsame (congrArg (fun equal => Value.bool (!equal)) (ha.alike.strictEqual hb.alike))

/-- A template without loose equality does not tell values apart that resemble one another, and no
template does if they are also represented alike inside sequences and mappings. -/
theorem likeness (exact : Prop) : Likeness (fun o => o = .looseEqual → exact) (Resembles exact) where
  refl := refl
  truthy h := h.alike.truthy
  display h := h.alike.display
  kindName h := h.kindName
  step step h := h.step refl (fun _ _ => And.left) step
  operator hallowed ha hb := operator hallowed ha hb
  array h := by
    cases h with
    | array h => exact ⟨_, rfl, h.forall₂.imp fun _ _ => Matches.mono (fun _ _ => id) fun _ _ => And.left⟩
  object h := by
    cases h with
    | object h =>
      refine ⟨_, rfl, h.forall₂.imp fun _ _ hmember => ⟨hmember.1, ?_⟩⟩
      exact hmember.2.mono (fun _ _ => id) fun _ _ => And.left

end Resembles

end Value

end ReactiveTemplate.Json
