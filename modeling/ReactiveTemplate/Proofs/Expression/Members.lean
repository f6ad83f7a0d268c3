import Mathlib
import ReactiveTemplate.Proofs.Expression.Evaluation
import ReactiveTemplate.Proofs.Expression.Printing

/-!
# Members by name

A name behind a dot is a step into a mapping. It is read as an index if it is a numeral, and an index is
turned back into a name where a mapping is searched. This gives the name that was written, unless zeros stand
in front of the numeral.
-/

namespace ReactiveTemplate.Expression

open ReactiveTemplate.Text ReactiveTemplate.Json ReactiveTemplate.Decimal

namespace Step

/-- The name under which a step searches a mapping. -/
def name : Step → String
  | key name => name
  | index n => toString n

/-- A step into a mapping leads to the member of its name. -/
theorem apply_object (step : Step) (members : Dictionary Value) :
    step.apply (.object members) = (members.lookup step.name).getD .null := by
  cases step <;> rfl

/-- A numeral within the bounds of indexes that has zeros in front. -/
structure Padded (key : String) : Prop where
  digits : ∀ c ∈ key.toList, c.isDigit = true
  zero : ∃ c rest, key.toList = '0' :: c :: rest
  fits : ofDigits key.toList ≤ maxIndex

/-- Such a numeral is read as an index. -/
theorem Padded.ofPart_eq {key : String} (h : Padded key) : ofPart key.toList = index (ofDigits key.toList) := by
  obtain ⟨c, rest, hzero⟩ := h.zero
  have hplus : ∀ more, key.toList ≠ '+' :: more := by simp [hzero]
  rw [ofPart, index?_of_unsigned hplus, if_pos ⟨by simp [hzero], List.all_eq_true.mpr h.digits, h.fits⟩]

/-- A word is searched for as it is written, unless it is a numeral with zeros in front. -/
theorem name_ofPart_iff {key : String} (hne : key ≠ "") (hkey : ∀ c ∈ key.toList, isWordChar c = true) :
    (ofPart key.toList).name = key ↔ ¬Padded key := by
  have hplus : ∀ rest, key.toList ≠ '+' :: rest := by
    intro rest heq
    have hword := hkey '+' (by simp [heq])
    contradiction
  have hsome : key.toList ≠ [] := fun hnil => hne (String.toList_eq_nil_iff.mp hnil)
  rw [ofPart, index?_of_unsigned hplus]
  by_cases hindex : key.toList ≠ [] ∧ key.toList.all Char.isDigit = true ∧ ofDigits key.toList ≤ maxIndex
  · rw [if_pos hindex]
    obtain ⟨_, hall, hfits⟩ := hindex
    have hdigits : ∀ c ∈ key.toList, c.isDigit = true := List.all_eq_true.mp hall
    have hwritten : (index (ofDigits key.toList)).name = key ↔
        Nat.toDigits 10 (ofDigits key.toList) = key.toList := by
      rw [← String.toList_inj]
      simp [name]
    refine hwritten.trans ⟨fun heq hpadded => ?_, fun hpadded => ?_⟩
    · -- No number is written with a zero in front of other digits.
      obtain ⟨c, rest, hzero⟩ := hpadded.zero
      exact List.cons_ne_nil c rest (rest_of_toDigits_eq_zero_cons (heq.trans hzero))
    · refine toDigits_ofDigits hsome hdigits fun rest hzero => ?_
      cases rest with
      | nil => rfl
      | cons c rest => exact absurd ⟨hdigits, ⟨c, rest, hzero⟩, hfits⟩ hpadded
  · rw [if_neg hindex]
    refine iff_of_true String.ofList_toList fun hpadded => hindex ⟨hsome, ?_, hpadded.fits⟩
    exact List.all_eq_true.mpr hpadded.digits

end Step

/-- A name with a member of it behind a dot means the path of one step. -/
theorem compile_member {root key : String} {c : Char} {cs : List Char} (hroot : root.toList = c :: cs)
    (hc : c.isAlpha = true ∨ c = '_') (hcs : ∀ d ∈ root.toList, isWordChar d = true) (hne : key ≠ "")
    (hkey : ∀ d ∈ key.toList, isWordChar d = true) :
    compile (root ++ "." ++ key) =
      .ok ⟨root ++ "." ++ key, .path ⟨root, [Step.ofPart key.toList]⟩⟩ := by
  have htext : (root ++ "." ++ key).toList = root.toList ++ '.' :: key.toList := by
    simp
  have hchars : ∀ d ∈ (root ++ "." ++ key).toList, isValueChar d = true := by
    rw [htext]
    refine List.forall_mem_append.mpr ⟨fun d hd => ?_, List.forall_mem_cons.mpr ⟨rfl, fun d hd => ?_⟩⟩
    · exact isValueChar_of_isWordChar (hcs d hd)
    · exact isValueChar_of_isWordChar (hkey d hd)
  have hfirst : (root ++ "." ++ key).toList = c :: (cs ++ '.' :: key.toList) := by
    rw [htext, hroot, List.cons_append]
  -- None of the words of JSON has a dot in it.
  have hword : ∀ word ∈ wordValues, root ++ "." ++ key ≠ word.1 := by
    intro word hmem heq
    have hdot : '.' ∈ word.1.toList := by
      rw [← heq, htext]
      simp
    simp only [wordValues, List.mem_cons, List.not_mem_nil, or_false] at hmem
    rcases hmem with rfl | rfl | rfl <;> simp at hdot
  have hparts : Path.parts (root ++ "." ++ key) = [root.toList, key.toList] := by
    change Path.partsOf (root ++ "." ++ key).toList = _
    rw [htext, Path.partsOf_part_append (Path.isPart_of_isWordChar (by simp [hroot]) hcs) rfl,
      Path.partsOf_part (Path.isPart_of_isWordChar (fun hnil => hne (String.toList_eq_nil_iff.mp hnil)) hkey)]
  have htree : Stack.valueTree? (root ++ "." ++ key) = some (.path ⟨root, [Step.ofPart key.toList]⟩) := by
    rw [valueTree?_of_name hfirst hc hchars hword, Path.ofText?, hparts]
    simp
  obtain ⟨tokens, hlexes, hspells⟩ :=
    SpelledBy.value (.value (by simp [hfirst]) hchars) htree 0
  exact (compile_eq_ok_iff_lexes 0).mpr ⟨tokens, hlexes, hspells.operand⟩

/-- The path of one step reads a member of the mapping that its variable means. -/
theorem eval_member {root : String} {step : Step} {source : String} {scope : Scope} {resolver : Resolver}
    {members : Dictionary Value} (h : Scope.Binds resolver scope.frames root (.object members)) :
    eval ⟨source, .path ⟨root, [step]⟩⟩ scope resolver = .ok ((members.lookup step.name).getD .null) := by
  rw [eval, Tree.eval, Path.eval, Scope.binds_iff.mp h, ← Step.apply_object]
  rfl

/-- A member of a mapping is asked for by a word behind a dot. What is read is the member of the name that was
written, or null if there is none, unless the word is a numeral with zeros in front: then it is the member whose
name is the numeral without them, and so for some mapping another one. -/
theorem member_of_path {key : String} (hne : key ≠ "") (hkey : ∀ c ∈ key.toList, isWordChar c = true) :
    ∃ e, compile ("obj." ++ key) = .ok e ∧
      ((∀ scope resolver members, Scope.Binds resolver scope.frames "obj" (.object members) →
          e.eval scope resolver = .ok ((members.lookup key).getD .null)) ↔ ¬Step.Padded key) ∧
      (Step.Padded key → ∀ scope resolver members, Scope.Binds resolver scope.frames "obj" (.object members) →
        e.eval scope resolver = .ok ((members.lookup (toString (ofDigits key.toList))).getD .null)) := by
  have hroot : "obj".toList = ['o', 'b', 'j'] := rfl
  have hcompile := compile_member hroot (Or.inl rfl) (by simp [isWordChar]) hne hkey
  refine ⟨_, hcompile, ⟨fun hreads hpadded => ?_, fun hplain scope resolver members hbinds => ?_⟩,
    fun hpadded scope resolver members hbinds => ?_⟩
  · -- The mapping that has this member only gives null instead.
    have hother : (Step.ofPart key.toList).name ≠ key := (Step.name_ofPart_iff hne hkey).not_left.mpr hpadded
    have hbinds : Scope.Binds (fun _ => none) [[("obj", .object [(key, .bool true)])]] "obj"
        (.object [(key, .bool true)]) := .here rfl
    have hread := hreads ⟨_⟩ _ _ hbinds
    rw [eval_member hbinds, Dictionary.lookup_cons, if_neg hother, Dictionary.lookup_cons, if_pos rfl] at hread
    cases hread
  · rw [eval_member hbinds, (Step.name_ofPart_iff hne hkey).mpr hplain]
  · rw [eval_member hbinds, hpadded.ofPart_eq]
    rfl

/-- A numeral that is too large for an index is a name like any other, and its member is read. -/
theorem member_of_path_large :
    "18446744073709551616" ≠ "" ∧ (∀ c ∈ "18446744073709551616".toList, isWordChar c = true) ∧
      ∃ e, compile ("obj." ++ "18446744073709551616") = .ok e ∧
        e.eval ⟨[[("obj", .object [("18446744073709551616", .string "read")])]]⟩ (fun _ => none) =
          .ok (.string "read") := by
  have hne : "18446744073709551616" ≠ "" := by decide
  have hkey : ∀ c ∈ "18446744073709551616".toList, isWordChar c = true := by simp [isWordChar]
  obtain ⟨e, he, hread, _⟩ := member_of_path hne hkey
  have hplain : ¬Step.Padded "18446744073709551616" := fun hpadded => absurd hpadded.fits (by decide)
  have hbinds : Scope.Binds (fun _ => none) [[("obj", .object [("18446744073709551616", .string "read")])]] "obj"
      (.object [("18446744073709551616", .string "read")]) := .here rfl
  exact ⟨hne, hkey, e, he, (hread.mpr hplain ⟨_⟩ _ _ hbinds).trans rfl⟩

/-- Of two members, the one is read whose name is the numeral without the zeros, and not the one whose name was
written. -/
theorem padded_member_misread :
    let members : Dictionary Value := [("007", .string "written"), ("7", .string "read")]
    members.lookup "007" = some (.string "written") ∧
      ∃ e, compile ("obj." ++ "007") = .ok e ∧
        e.eval ⟨[[("obj", .object members)]]⟩ (fun _ => none) = .ok (.string "read") := by
  intro members
  have hroot : "obj".toList = ['o', 'b', 'j'] := rfl
  have hkey : ∀ c ∈ "007".toList, isWordChar c = true := by simp [isWordChar]
  have hcompile := compile_member hroot (Or.inl rfl) (by simp [isWordChar]) (by decide) hkey
  let scope : Scope := ⟨[[("obj", .object members)]]⟩
  have hbinds : Scope.Binds (fun _ => none) scope.frames "obj" (.object members) := .here rfl
  exact ⟨rfl, _, hcompile, (eval_member hbinds).trans rfl⟩

end ReactiveTemplate.Expression
