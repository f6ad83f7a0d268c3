import Mathlib
import ReactiveTemplate.Store
import ReactiveTemplate.Proofs.Expression.Comparing

/-!
# Writes of whole numbers

Numbers are compared as doubles, so a whole number that is written takes the place of another only if the two
have different nearest doubles. Up to `2 ^ 53` these are the numbers themselves. Beyond, a write is dropped if
both numbers are rounded to the same double, though they be different.
-/

namespace ReactiveTemplate

open Decimal Json Expression

/-- Values that are equal but for one place, where there are two whole numbers. -/
inductive EqualBut (m n : Int) : Value → Value → Prop where
  | here : EqualBut m n (.number (.integer m)) (.number (.integer n))
  | item {as bs : List Value} {a b : Value} (index : Nat) (ha : as[index]? = some a) (hb : bs[index]? = some b)
      (hlength : as.length = bs.length)
      (hothers : ∀ other x y, other ≠ index → as[other]? = some x → bs[other]? = some y → strictEqual x y = true)
      (h : EqualBut m n a b) : EqualBut m n (.array as) (.array bs)
  | member {as bs : List (String × Value)} {a b : Value} (name : String) (ha : as.lookup name = some a)
      (hb : bs.lookup name = some b) (hnames : (Dictionary.names as).Nodup) (hlength : as.length = bs.length)
      (hothers : ∀ other ∈ as, other.1 ≠ name →
        ∃ found, bs.lookup other.1 = some found ∧ strictEqual other.2 found = true)
      (h : EqualBut m n a b) : EqualBut m n (.object as) (.object bs)

namespace EqualBut

variable {m n : Int} {a b : Value}

/-- The whole numbers face one another. -/
theorem facing (h : EqualBut m n a b) : Facing a b (.integer m) (.integer n) := by
  induction h with
  | here => exact .here _ _
  | item index ha hb _ _ _ ih => exact .item index ha hb ih
  | member name ha hb _ _ _ _ ih => exact .member name (Dictionary.mem_of_lookup ha) hb ih

/-- The values are strictly equal if the whole numbers are the same double. -/
theorem strictEqual_of_beq (h : EqualBut m n a b) (hequal : (Float.ofInt m == Float.ofInt n) = true) :
    strictEqual a b = true := by
  induction h with
  | here => exact hequal
  | item index ha hb hlength hothers _ ih =>
    refine (comparesBy_strictEqual.array _ _).mpr ⟨_, rfl, List.forall₂_iff_get.mpr ⟨hlength, fun i hi hk => ?_⟩⟩
    have hleft := List.getElem?_eq_getElem hi
    have hright := List.getElem?_eq_getElem hk
    by_cases hi : i = index
    · subst hi
      rw [hleft, Option.some.injEq] at ha
      rw [hright, Option.some.injEq] at hb
      rw [List.get_eq_getElem, List.get_eq_getElem, ha, hb]
      exact ih
    · exact hothers i _ _ hi hleft hright
  | @member as bs a b name ha hb hnames hlength hothers _ ih =>
    refine (comparesBy_strictEqual.object _ _).mpr ⟨bs, rfl, hlength, fun other hother => ?_⟩
    by_cases hname : other.1 = name
    · have honly := Dictionary.lookup_of_mem hnames hother
      rw [hname, ha, Option.some.injEq] at honly
      rw [hname, ← honly]
      exact ⟨b, hb, ih⟩
    · exact hothers other hother hname

/-- The values are strictly equal exactly if the whole numbers have one nearest double. -/
theorem strictEqual_iff (h : EqualBut m n a b) (hm : (Number.integer m).WellFormed)
    (hn : (Number.integer n).WellFormed) : strictEqual a b = true ↔ nearest m = nearest n := by
  rw [← ofInt_beq_iff hm.log2_lt hn.log2_lt]
  exact ⟨h.facing.toFloat_beq, h.strictEqual_of_beq⟩

end EqualBut

namespace Store

variable {store : Store} {field : String} {old value : Value}

/-- What a write to a declared field does depends on whether the value is strictly equal to the old one. -/
theorem write?_of_find? (h : store.find? field = some old) :
    store.write? field value =
      if strictEqual old value then some (.unchanged, store)
      else some (.changed (!isPrivate field), { store with fields := Dictionary.put field value store.fields }) := by
  rw [write?, h, Option.map_some]
  split <;> rfl

/-- A field that was written has its new value, and the others have theirs. -/
theorem find?_put (store : Store) (field : String) (value : Value) (asked : String) :
    find? { store with fields := Dictionary.put field value store.fields } asked =
      if asked = field then some value else store.find? asked :=
  Dictionary.lookup_put field value store.fields asked

/-- A whole number that is written to a field with a whole number is dropped if both have one nearest double,
and is what the field holds afterwards if not. The same decides whether values are strictly equal that are
equal but for the place of these numbers. Numbers up to `2 ^ 53` are dropped only if they are the same, and
others only if they are no further apart than doubles of their size are. -/
theorem write?_integer {m n : Int} (hm : (Number.integer m).WellFormed) (hn : (Number.integer n).WellFormed)
    (hfield : store.find? field = some (.number (.integer m))) :
    (store.write? field (.number (.integer n)) = some (.unchanged, store) ↔ nearest m = nearest n) ∧
      (nearest m ≠ nearest n → ∃ after,
        store.write? field (.number (.integer n)) = some (.changed (!isPrivate field), after) ∧
          after.find? field = some (.number (.integer n)) ∧
          ∀ other, other ≠ field → after.find? other = store.find? other) ∧
      (∀ a b, EqualBut m n a b → (strictEqual a b = true ↔ nearest m = nearest n)) ∧
      (m.natAbs ≤ 2 ^ 53 → n.natAbs ≤ 2 ^ 53 → (nearest m = nearest n ↔ m = n)) ∧
      (nearest m = nearest n → 2 * (m - n).natAbs ≤ spacing m.natAbs + spacing n.natAbs) := by
  have hequal := EqualBut.here.strictEqual_iff hm hn
  refine ⟨?_, fun hdiffer => ?_, fun a b h => h.strictEqual_iff hm hn, fun hmsmall hnsmall => ?_, near_of_nearest_eq⟩
  · rw [write?_of_find? hfield, ← hequal]
    split
    · next h => exact iff_of_true rfl h
    · next h => exact iff_of_false (fun heq => by cases heq) h
  · refine ⟨_, (write?_of_find? hfield).trans (if_neg fun h => hdiffer (hequal.mp h)), ?_, fun other hother => ?_⟩
    · rw [find?_put, if_pos rfl]
    · rw [find?_put, if_neg hother]
  · rw [nearest_of_le hmsmall, nearest_of_le hnsmall]

/-- The first number beyond `2 ^ 53` is dropped in its place, and the second is not. -/
theorem write?_integer_beyond :
    let store : Store := ⟨[("n", .number (.integer 9007199254740992))], false⟩
    store.write? "n" (.number (.integer 9007199254740993)) = some (.unchanged, store) ∧
      ∃ after, store.write? "n" (.number (.integer 9007199254740994)) = some (.changed true, after) ∧
        after.find? "n" = some (.number (.integer 9007199254740994)) := by
  intro store
  have hold : (Number.integer 9007199254740992).WellFormed := ⟨by decide, by decide⟩
  have hfirst := write?_integer (n := 9007199254740993) hold ⟨by decide, by decide⟩
    (show store.find? "n" = _ from rfl)
  have hsecond := write?_integer (n := 9007199254740994) hold ⟨by decide, by decide⟩
    (show store.find? "n" = _ from rfl)
  obtain ⟨after, hafter, hfound, _⟩ := hsecond.2.1 (by decide +kernel)
  exact ⟨hfirst.1.mpr (by decide +kernel), after, hafter, hfound⟩

/-- A write of another whole number that is lost: the field keeps `2 ^ 53`. -/
theorem write?_integer_lost :
    ¬ ∀ (store : Store) (field : String) (m n : Int), (Number.integer m).WellFormed → (Number.integer n).WellFormed →
      store.find? field = some (.number (.integer m)) →
        (store.write? field (.number (.integer n)) = some (.unchanged, store) ↔ m = n) := by
  intro hall
  have hequal : strictEqual (.number (.integer 9007199254740992)) (.number (.integer 9007199254740993)) = true := by
    decide +kernel
  have hiff := hall ⟨[("n", .number (.integer 9007199254740992))], false⟩ "n" 9007199254740992 9007199254740993
    ⟨by decide, by decide⟩ ⟨by decide, by decide⟩ rfl
  refine absurd (hiff.mp ?_) (by decide)
  exact (write?_of_find? rfl).trans (if_pos hequal)

end Store

end ReactiveTemplate
