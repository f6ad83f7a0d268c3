import Mathlib
import ReactiveTemplate.Proofs.Decimal.Wholes
import ReactiveTemplate.Proofs.Expression.Equality
import ReactiveTemplate.Proofs.Json.Correspondence

/-!
# The laws of equality

Strict equality and sameness differ in how they compare numbers, and compare everything else alike:
sequences place by place, and each member of a mapping with the one of that name in another mapping of as
many. If the names of the first mapping are all different, they are all the names of the second, so that it
does not matter which mapping is the first.
-/

namespace ReactiveTemplate.Json

open ReactiveTemplate.Decimal ReactiveTemplate.Expression

namespace Value

/-- To prove something of all values, prove it of a sequence from its items and of a mapping from its
members. -/
@[elab_as_elim]
theorem induction {motive : Value → Prop} (null : motive .null) (bool : ∀ flag, motive (.bool flag))
    (number : ∀ n, motive (.number n)) (string : ∀ text, motive (.string text))
    (array : ∀ items, (∀ item ∈ items, motive item) → motive (.array items))
    (object : ∀ members, (∀ member ∈ members, motive member.2) → motive (.object members)) (a : Value) :
    motive a :=
  @Value.rec motive (fun items => ∀ item ∈ items, motive item) (fun members => ∀ member ∈ members, motive member.2)
    (fun member => motive member.2) null bool number string array object
    (fun _ hitem => absurd hitem List.not_mem_nil)
    (fun _ _ hfirst hrest _ hitem => (List.mem_cons.mp hitem).elim (fun heq => heq ▸ hfirst) (hrest _))
    (fun _ hmember => absurd hmember List.not_mem_nil)
    (fun _ _ hfirst hrest _ hmember => (List.mem_cons.mp hmember).elim (fun heq => heq ▸ hfirst) (hrest _))
    (fun _ _ hvalue => hvalue) a

/-- Items of a well-formed sequence. -/
theorem WellFormedItems.of_mem {items : List Value} (h : WellFormedItems items) {item : Value}
    (hitem : item ∈ items) : item.WellFormed := by
  induction items with
  | nil => cases hitem
  | cons first rest ih =>
    rcases List.mem_cons.mp hitem with rfl | hrest
    · exact h.1
    · exact ih h.2 hrest

/-- Members of a well-formed mapping. -/
theorem WellFormedMembers.of_mem {members : List (String × Value)} (h : WellFormedMembers members)
    {member : String × Value} (hmember : member ∈ members) : member.2.WellFormed := by
  induction members with
  | nil => cases hmember
  | cons first rest ih =>
    rcases List.mem_cons.mp hmember with rfl | hrest
    · exact h.1
    · exact ih h.2 hrest

/-- All doubles in a value are finite. -/
inductive Finite : Value → Prop where
  | null : Finite .null
  | bool (flag : Bool) : Finite (.bool flag)
  | integer (n : Int) : Finite (.number (.integer n))
  | float {x : Float} (h : x.isFinite = true) : Finite (.number (.float x))
  | string (text : String) : Finite (.string text)
  | array {items : List Value} (h : ∀ item ∈ items, Finite item) : Finite (.array items)
  | object {members : List (String × Value)} (h : ∀ member ∈ members, Finite member.2) : Finite (.object members)

end Value

/-! ### Numbers -/

/-- A finite double equals itself. -/
theorem beq_self_of_isFinite {x : Float} (h : x.isFinite = true) : (x == x) = true := by
  change (x.toModel.unpack.compare x.toModel.unpack == some .eq) = true
  change x.toModel.unpack.isFinite = true at h
  cases hunpack : x.toModel.unpack with
  | zero sign => rfl
  | finite sign mantissa exponent hpos => cases sign <;> simp [Float.Model.UnpackedFloat.compare]
  | _ =>
    rw [hunpack] at h
    cases h

/-- Equality of doubles is symmetric. -/
theorem float_beq_comm (x y : Float) : (x == y) = (y == x) := by
  have hswap {x y : Float} (h : (x == y) = true) : (y == x) = true := by
    have hsame := SameFloat.of_beq h
    rwa [hsame.symm.beq hsame]
  exact Bool.eq_iff_iff.mpr ⟨hswap, hswap⟩

/-- Equality of doubles is transitive. -/
theorem float_beq_trans {x y z : Float} (h : (x == y) = true) (h' : (y == z) = true) : (x == z) = true := by
  rwa [(SameFloat.of_beq h).beq (.refl z)]

namespace Number

/-- A whole number within bounds has 64 bits at most. -/
theorem WellFormed.log2_lt {n : Int} (h : (integer n).WellFormed) : n.natAbs.log2 < 64 := by
  obtain ⟨hlow, hhigh⟩ := h
  have hpow63 : Nat.pow 2 63 = 9223372036854775808 := rfl
  have hpow64 : Nat.pow 2 64 = 18446744073709551616 := rfl
  rw [hpow63] at hlow
  rw [hpow64] at hhigh
  by_cases hzero : n.natAbs = 0
  · rw [hzero]
    decide
  · exact (Nat.log2_lt hzero).mpr (by omega)

/-- A number in a well-formed value with finite doubles is as large as itself. -/
theorem beq_self_toFloat {n : Number} (hwell : n.WellFormed) (hfinite : (Value.number n).Finite) :
    (n.toFloat == n.toFloat) = true := by
  cases hfinite with
  | integer n => exact (ofInt_beq_iff hwell.log2_lt hwell.log2_lt).mpr rfl
  | float h => exact beq_self_of_isFinite h

/-- A number in a value with finite doubles is the same as itself. -/
theorem same_self {n : Number} (hfinite : (Value.number n).Finite) : n.same n = true := by
  cases hfinite with
  | integer n => exact beq_self_eq_true n
  | float h => exact beq_self_of_isFinite h

/-- Sameness of numbers is symmetric. -/
theorem same_comm (m n : Number) : m.same n = n.same m := by
  cases m with
  | integer m =>
    cases n with
    | integer n => exact Bool.beq_comm
    | float y => rfl
  | float x =>
    cases n with
    | integer n => rfl
    | float y => exact float_beq_comm x y

end Number

/-! ### Comparison part by part -/

/-- An equality of values that compares numbers by `alike`, items place by place and members by name. -/
structure ComparesBy (alike : Number → Number → Bool) (eq : Value → Value → Bool) : Prop where
  null : ∀ b, eq .null b = true ↔ .null = b
  bool : ∀ flag b, eq (.bool flag) b = true ↔ .bool flag = b
  number : ∀ m b, eq (.number m) b = true ↔ ∃ n, b = .number n ∧ alike m n = true
  string : ∀ text b, eq (.string text) b = true ↔ .string text = b
  array : ∀ as b, eq (.array as) b = true ↔ ∃ bs, b = .array bs ∧ List.Forall₂ (fun a b => eq a b = true) as bs
  object : ∀ as b, eq (.object as) b = true ↔ ∃ bs, b = .object bs ∧ as.length = bs.length ∧
    ∀ member ∈ as, ∃ found, bs.lookup member.1 = some found ∧ eq member.2 found = true

/-- Items are strictly equal place by place. -/
theorem strictEqualItems_iff (as bs : List Value) :
    as.length = bs.length ∧ strictEqualItems as bs = true ↔
      List.Forall₂ (fun a b => strictEqual a b = true) as bs := by
  induction as generalizing bs with
  | nil =>
    cases bs with
    | nil => simp [strictEqualItems]
    | cons b bs => simp
  | cons a as ih =>
    cases bs with
    | nil => simp
    | cons b bs =>
      rw [List.forall₂_cons, ← ih, strictEqualItems, Bool.and_eq_true, List.length_cons, List.length_cons,
        Nat.add_right_cancel_iff]
      exact and_left_comm

/-- Items are the same place by place. -/
theorem sameItems_iff (as bs : List Value) :
    Value.sameItems as bs = true ↔ List.Forall₂ (fun a b => a.same b = true) as bs := by
  induction as generalizing bs with
  | nil => cases bs <;> simp [Value.sameItems]
  | cons a as ih =>
    cases bs with
    | nil => simp [Value.sameItems]
    | cons b bs => rw [Value.sameItems, Bool.and_eq_true, ih, List.forall₂_cons]

/-- Each member is the same as the one of its name. -/
theorem sameMembers_iff (as bs : List (String × Value)) :
    Value.sameMembers as bs = true ↔
      ∀ member ∈ as, ∃ found, bs.lookup member.1 = some found ∧ member.2.same found = true := by
  induction as with
  | nil => simp [Value.sameMembers]
  | cons member as ih =>
    obtain ⟨name, a⟩ := member
    rw [Value.sameMembers, Bool.and_eq_true, ih, List.forall_mem_cons]
    cases bs.lookup name <;> simp

/-- Strict equality compares numbers as doubles. -/
theorem comparesBy_strictEqual : ComparesBy (fun m n => m.toFloat == n.toFloat) strictEqual where
  null b := by cases b <;> simp [strictEqual]
  bool flag b := by cases b <;> simp [strictEqual]
  number m b := by cases b <;> simp [strictEqual]
  string text b := by cases b <;> simp [strictEqual]
  array as b := by cases b <;> simp [strictEqual, ← strictEqualItems_iff]
  object as b := by cases b <;> simp [strictEqual, strictEqualMembers_iff]

/-- Sameness compares numbers by representation. -/
theorem comparesBy_same : ComparesBy Number.same Value.same where
  null b := by cases b <;> simp [Value.same]
  bool flag b := by cases b <;> simp [Value.same]
  number m b := by cases b <;> simp [Value.same]
  string text b := by cases b <;> simp [Value.same]
  array as b := by cases b <;> simp [Value.same, sameItems_iff]
  object as b := by cases b <;> simp [Value.same, sameMembers_iff]

/-- Different names that are all found in a mapping of as many members are all its names. -/
theorem perm_names {as bs : List (String × Value)} (hnames : (Dictionary.names as).Nodup)
    (hlength : as.length = bs.length) (hfound : ∀ member ∈ as, (bs.lookup member.1).isSome = true) :
    (Dictionary.names as).Perm (Dictionary.names bs) := by
  have hsubset : Dictionary.names as ⊆ Dictionary.names bs := by
    intro name hname
    obtain ⟨member, hmember, rfl⟩ := List.mem_map.mp hname
    exact Dictionary.isSome_lookup_iff.mp (hfound member hmember)
  refine (List.subperm_of_subset hnames hsubset).perm_of_length_le ?_
  rw [Dictionary.names, Dictionary.names, List.length_map, List.length_map, hlength]

namespace ComparesBy

variable {alike : Number → Number → Bool} {eq : Value → Value → Bool} {a b c : Value}

/-- Well-formed values equal themselves if their numbers do. -/
theorem refl (h : ComparesBy alike eq)
    (hself : ∀ n : Number, n.WellFormed → (Value.number n).Finite → alike n n = true) (hwell : a.WellFormed)
    (hfinite : a.Finite) : eq a a = true := by
  induction a using Value.induction with
  | null => exact (h.null _).mpr rfl
  | bool flag => exact (h.bool _ _).mpr rfl
  | number n => exact (h.number _ _).mpr ⟨n, rfl, hself n hwell hfinite⟩
  | string text => exact (h.string _ _).mpr rfl
  | array items ih =>
    cases hfinite with
    | array hfinite =>
      refine (h.array _ _).mpr ⟨items, rfl, List.forall₂_same.mpr fun item hitem => ?_⟩
      exact ih item hitem (Value.WellFormedItems.of_mem hwell hitem) (hfinite item hitem)
  | object members ih =>
    cases hfinite with
    | object hfinite =>
      refine (h.object _ _).mpr ⟨members, rfl, rfl, fun member hmember => ?_⟩
      exact ⟨member.2, Dictionary.lookup_of_mem hwell.1 hmember,
        ih member hmember (Value.WellFormedMembers.of_mem hwell.2 hmember) (hfinite member hmember)⟩

/-- What a well-formed value equals equals it. -/
theorem symm (h : ComparesBy alike eq) (hcomm : ∀ m n, alike m n = alike n m) (hwell : a.WellFormed)
    (hequal : eq a b = true) : eq b a = true := by
  induction a using Value.induction generalizing b with
  | null =>
    obtain rfl := (h.null _).mp hequal
    exact hequal
  | bool flag =>
    obtain rfl := (h.bool _ _).mp hequal
    exact hequal
  | number m =>
    obtain ⟨n, rfl, halike⟩ := (h.number _ _).mp hequal
    exact (h.number _ _).mpr ⟨m, rfl, hcomm m n ▸ halike⟩
  | string text =>
    obtain rfl := (h.string _ _).mp hequal
    exact hequal
  | array as ih =>
    obtain ⟨bs, rfl, hitems⟩ := (h.array _ _).mp hequal
    have hinside := (List.forall₂_and_left as bs).mpr ⟨fun a (ha : a ∈ as) => ha, hitems⟩
    refine (h.array _ _).mpr ⟨as, rfl, (hinside.imp fun a b hab => ?_).flip⟩
    exact ih a hab.1 (Value.WellFormedItems.of_mem hwell hab.1) hab.2
  | object as ih =>
    obtain ⟨bs, rfl, hlength, hmembers⟩ := (h.object _ _).mp hequal
    have hperm := perm_names hwell.1 hlength fun member hmember => by
      obtain ⟨found, hfound, _⟩ := hmembers member hmember
      rw [hfound]
      rfl
    refine (h.object _ _).mpr ⟨as, rfl, hlength.symm, fun member hmember => ?_⟩
    -- The member has the name of one of the first mapping, and it is the only one of that name.
    obtain ⟨other, hother, hname⟩ := List.mem_map.mp (hperm.mem_iff.mpr (List.mem_map_of_mem hmember))
    obtain ⟨found, hfound, hpart⟩ := hmembers other hother
    have honly := Dictionary.lookup_of_mem (hperm.nodup_iff.mp hwell.1) hmember
    rw [← hname, hfound, Option.some.injEq] at honly
    rw [← hname, ← honly]
    exact ⟨other.2, Dictionary.lookup_of_mem hwell.1 hother,
      ih other hother (Value.WellFormedMembers.of_mem hwell.2 hother) hpart⟩

/-- What two values equal in turn the first equals. -/
theorem trans (h : ComparesBy alike eq)
    (htrans : ∀ m n k, alike m n = true → alike n k = true → alike m k = true) (hequal : eq a b = true)
    (hequal' : eq b c = true) : eq a c = true := by
  induction a using Value.induction generalizing b c with
  | null =>
    obtain rfl := (h.null _).mp hequal
    exact hequal'
  | bool flag =>
    obtain rfl := (h.bool _ _).mp hequal
    exact hequal'
  | number m =>
    obtain ⟨n, rfl, halike⟩ := (h.number _ _).mp hequal
    obtain ⟨k, rfl, halike'⟩ := (h.number _ _).mp hequal'
    exact (h.number _ _).mpr ⟨k, rfl, htrans m n k halike halike'⟩
  | string text =>
    obtain rfl := (h.string _ _).mp hequal
    exact hequal'
  | array as ih =>
    obtain ⟨bs, rfl, hitems⟩ := (h.array _ _).mp hequal
    obtain ⟨cs, rfl, hitems'⟩ := (h.array _ _).mp hequal'
    refine (h.array _ _).mpr ⟨cs, rfl, ?_⟩
    rw [List.forall₂_iff_get] at hitems hitems' ⊢
    refine ⟨hitems.1.trans hitems'.1, fun i hi hk => ?_⟩
    exact ih _ (List.get_mem _ _) (hitems.2 i hi (hitems.1 ▸ hi)) (hitems'.2 i (hitems.1 ▸ hi) hk)
  | object as ih =>
    obtain ⟨bs, rfl, hlength, hmembers⟩ := (h.object _ _).mp hequal
    obtain ⟨cs, rfl, hlength', hmembers'⟩ := (h.object _ _).mp hequal'
    refine (h.object _ _).mpr ⟨cs, rfl, hlength.trans hlength', fun member hmember => ?_⟩
    obtain ⟨middle, hmiddle, hpart⟩ := hmembers member hmember
    obtain ⟨found, hfound, hpart'⟩ := hmembers' (member.1, middle) (Dictionary.mem_of_lookup hmiddle)
    exact ⟨found, hfound, ih member hmember hpart hpart'⟩

/-- Of two well-formed values it does not matter which is compared with which. -/
theorem comm (h : ComparesBy alike eq) (hcomm : ∀ m n, alike m n = alike n m) (ha : a.WellFormed)
    (hb : b.WellFormed) : eq a b = eq b a :=
  Bool.eq_iff_iff.mpr ⟨h.symm hcomm ha, h.symm hcomm hb⟩

end ComparesBy

end ReactiveTemplate.Json

namespace ReactiveTemplate.Expression

open ReactiveTemplate.Json

/-! ### Loose equality -/

/-- Well-formed values with finite doubles are loosely equal to themselves. -/
theorem looseEqual_self {a : Value} (hwell : a.WellFormed) (hfinite : a.Finite) : looseEqual a a = true := by
  have hsame := comparesBy_same.refl (fun _ _ => Number.same_self) hwell hfinite
  cases a with
  | null => rfl
  | bool flag => cases flag <;> decide
  | number n => exact Number.beq_self_toFloat hwell hfinite
  | string text => exact beq_self_eq_true text
  | array items => exact hsame
  | object members => exact hsame

/-- Equality as numbers is symmetric. -/
theorem numericEqual_comm (a b : Value) : numericEqual a b = numericEqual b a :=
  float_beq_comm a.toNumber b.toNumber

/-- Equality as shown or as numbers is symmetric. -/
theorem shownEqual_comm (a b : Value) :
    (a.display == b.display || numericEqual a b) = (b.display == a.display || numericEqual b a) := by
  rw [numericEqual_comm, Bool.beq_comm]

/-- Loose equality of well-formed values is symmetric. -/
theorem looseEqual_comm {a b : Value} (ha : a.WellFormed) (hb : b.WellFormed) : looseEqual a b = looseEqual b a := by
  have hsame := comparesBy_same.comm Number.same_comm ha hb
  -- The kinds of both sides decide how they are compared; where they decide the result, too, so does sameness.
  cases a <;> cases b
  all_goals first
    | exact hsame
    | exact shownEqual_comm _ _
    | exact numericEqual_comm _ _

/-- Strict equality of values is an equivalence: it is reflexive on well-formed values with finite doubles,
symmetric on well-formed values, and transitive. Loose equality is reflexive and symmetric in the same sense. -/
theorem equality_laws {a b c : Value} (ha : a.WellFormed) (hfinite : a.Finite) (hb : b.WellFormed) :
    strictEqual a a = true ∧
      (strictEqual a b = true → strictEqual b a = true) ∧
      (strictEqual a b = true → strictEqual b c = true → strictEqual a c = true) ∧
      looseEqual a a = true ∧
      looseEqual a b = looseEqual b a := by
  refine ⟨?_, ?_, ?_, looseEqual_self ha hfinite, looseEqual_comm ha hb⟩
  · exact comparesBy_strictEqual.refl (fun _ => Number.beq_self_toFloat) ha hfinite
  · exact comparesBy_strictEqual.symm (fun _ _ => float_beq_comm _ _) ha
  · exact comparesBy_strictEqual.trans fun _ _ _ => float_beq_trans

/-- Mappings whose members are in different orders, with numbers of both representations. -/
theorem equality_laws_nested :
    let a := Value.object [("x", .array [.number (.integer 1), .string "a"]), ("y", .number (.float 2))]
    let b := Value.object [("y", .number (.integer 2)), ("x", .array [.number (.float 1), .string "a"])]
    strictEqual a b = true ∧ strictEqual b a = true ∧ strictEqual a a = true ∧ looseEqual a a = true ∧
      looseEqual a b = looseEqual b a := by
  intro a b
  have ha : a.WellFormed := by
    refine ⟨by decide, ⟨⟨?_, ?_⟩, trivial, trivial⟩, trivial, trivial⟩ <;> decide
  have hb : b.WellFormed := by
    refine ⟨by decide, ⟨?_, ?_⟩, ⟨trivial, trivial, trivial⟩, trivial⟩ <;> decide
  have hfinite : a.Finite := by
    refine .object ?_
    simp only [List.forall_mem_cons]
    refine ⟨.array ?_, .float (by decide), List.forall_mem_nil _⟩
    simp only [List.forall_mem_cons]
    exact ⟨.integer 1, .string "a", List.forall_mem_nil _⟩
  have hequal : strictEqual a b = true := by decide +kernel
  obtain ⟨hself, hsymm, _, hloose, hcomm⟩ := equality_laws (c := b) ha hfinite hb
  exact ⟨hequal, hsymm hequal, hself, hloose, hcomm⟩

end ReactiveTemplate.Expression
