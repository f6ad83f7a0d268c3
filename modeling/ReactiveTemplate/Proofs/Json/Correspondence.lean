import ReactiveTemplate.Proofs.Json.Matching

/-!
# What strict equality leaves open

Strictly equal values may list their members in different orders, and hold different numbers if these are
rounded to one double. Nothing else tells them apart: values that are strictly equal and correspond place
by place resemble one another.
-/

namespace ReactiveTemplate.Json

open ReactiveTemplate.Expression

namespace Value

mutual

/-- Whole numbers are within bounds, and the members of a mapping have different names. -/
def WellFormed : Value → Prop
  | .number n => n.WellFormed
  | .array items => WellFormedItems items
  | .object members => (Dictionary.names members).Nodup ∧ WellFormedMembers members
  | _ => True

/-- All items are well-formed. -/
def WellFormedItems : List Value → Prop
  | [] => True
  | item :: rest => item.WellFormed ∧ WellFormedItems rest

/-- The values of all members are well-formed. -/
def WellFormedMembers : List (String × Value) → Prop
  | [] => True
  | (_, value) :: rest => value.WellFormed ∧ WellFormedMembers rest

end

/-- Values that correspond place by place: numbers are the same whole number or both not whole, and are
represented alike inside sequences and mappings if that matters. -/
def Corresponds (exact : Prop) : Value → Value → Prop :=
  Matches (fun m n => m.whole? = n.whole? ∧ (exact → m.isInteger = n.isInteger)) fun m n => m.whole? = n.whole?

/-- Well-formed values that are strictly equal and correspond place by place. -/
structure Interchangeable (exact : Prop) (a b : Value) : Prop where
  left : a.WellFormed
  right : b.WellFormed
  equal : strictEqual a b = true
  corresponds : a.Corresponds exact b

section Strengthen

variable {inner inner' : Number → Number → Prop}

mutual

/-- Values that match and are strictly equal match also up to what equal numbers have in common. -/
theorem Matches.of_strictEqual {outer outer' : Number → Number → Prop} {a b : Value}
    (hinner : ∀ m n, m.WellFormed → n.WellFormed → (m.toFloat == n.toFloat) = true → inner m n → inner' m n)
    (houter : ∀ m n, m.WellFormed → n.WellFormed → (m.toFloat == n.toFloat) = true → outer m n → outer' m n)
    (h : Matches inner outer a b) (ha : a.WellFormed) (hb : b.WellFormed) (hequal : strictEqual a b = true) :
    Matches inner' outer' a b := by
  match h with
  | .null => exact .null
  | .bool flag => exact .bool flag
  | .number h => exact .number (houter _ _ ha hb hequal h)
  | .string text => exact .string text
  | .array h =>
    rw [strictEqual, Bool.and_eq_true] at hequal
    exact .array (MatchesItems.of_strictEqual hinner h ha hb hequal.2)
  | .object h =>
    rw [strictEqual, Bool.and_eq_true] at hequal
    exact .object (MatchesMembers.of_strictEqual hinner h ha.2 hb.2 hequal.2
      fun member hmem => Dictionary.lookup_of_mem hb.1 hmem)

/-- The same for items. -/
theorem MatchesItems.of_strictEqual {as bs : List Value}
    (hinner : ∀ m n, m.WellFormed → n.WellFormed → (m.toFloat == n.toFloat) = true → inner m n → inner' m n)
    (h : MatchesItems inner as bs) (ha : WellFormedItems as) (hb : WellFormedItems bs)
    (hequal : strictEqualItems as bs = true) : MatchesItems inner' as bs := by
  match h with
  | .nil => exact .nil
  | .cons h rest =>
    rw [strictEqualItems, Bool.and_eq_true] at hequal
    exact .cons (Matches.of_strictEqual hinner hinner h ha.1 hb.1 hequal.1)
      (MatchesItems.of_strictEqual hinner rest ha.2 hb.2 hequal.2)

/-- The same for members, which are compared with those of their names among all. -/
theorem MatchesMembers.of_strictEqual {as bs all : List (String × Value)}
    (hinner : ∀ m n, m.WellFormed → n.WellFormed → (m.toFloat == n.toFloat) = true → inner m n → inner' m n)
    (h : MatchesMembers inner as bs) (ha : WellFormedMembers as) (hb : WellFormedMembers bs)
    (hequal : strictEqualMembers as all = true) (hall : ∀ member ∈ bs, all.lookup member.1 = some member.2) :
    MatchesMembers inner' as bs := by
  match h with
  | .nil => exact .nil
  | .cons h rest =>
    have hfound := hall _ List.mem_cons_self
    dsimp only at hfound
    rw [strictEqualMembers, hfound, Bool.and_eq_true] at hequal
    exact .cons (Matches.of_strictEqual hinner hinner h ha.1 hb.1 hequal.1)
      (MatchesMembers.of_strictEqual hinner rest ha.2 hb.2 hequal.2
        fun member hmem => hall member (List.mem_cons_of_mem _ hmem))

end

end Strengthen

/-- Interchangeable values resemble one another. -/
theorem Interchangeable.resembles {exact : Prop} {a b : Value} (h : Interchangeable exact a b) :
    Resembles exact a b := by
  refine Matches.of_strictEqual (fun m n hm hn hequal hsame => ?_) (fun m n hm hn hequal hsame => ?_)
    h.corresponds h.left h.right h.equal
  · exact ⟨Number.alike_of_beq hm hn hequal hsame.1, hsame.2⟩
  · exact Number.alike_of_beq hm hn hequal hsame

end Value

end ReactiveTemplate.Json
