import ReactiveTemplate.Dictionary

/-!
# What dictionaries hold

Putting a value under a name changes what is found there and nothing else.
-/

namespace ReactiveTemplate

namespace Dictionary

variable {α : Type}

/-- The first entry of a name counts. -/
theorem lookup_cons (name : String) (value : α) (d : Dictionary α) (asked : String) :
    List.lookup asked ((name, value) :: d) = if asked = name then some value else d.lookup asked := by
  by_cases h : asked = name
  · subst h
    rw [List.lookup_cons_self, if_pos rfl]
  · rw [List.lookup_cons, beq_false_of_ne h, if_neg h]

/-- A name that was put in has its new value, and every other name the one it had. -/
theorem lookup_put (name : String) (value : α) (d : Dictionary α) (asked : String) :
    (put name value d).lookup asked = if asked = name then some value else d.lookup asked := by
  induction d with
  | nil => rw [put, lookup_cons]
  | cons entry rest ih =>
    obtain ⟨bound, old⟩ := entry
    rw [put]
    split
    · next hbound =>
      subst hbound
      rw [lookup_cons, lookup_cons]
      split <;> rfl
    · next hbound =>
      rw [lookup_cons, lookup_cons, ih]
      split
      · next hasked => rw [if_neg (hasked ▸ hbound)]
      · rfl

/-- Something is found under the names of a dictionary, and under no others. -/
theorem isSome_lookup_iff {d : Dictionary α} {name : String} : (d.lookup name).isSome = true ↔ name ∈ d.names := by
  induction d with
  | nil => simp [names]
  | cons entry rest ih =>
    obtain ⟨bound, value⟩ := entry
    rw [lookup_cons, names, List.map_cons, List.mem_cons, ← names, ← ih]
    by_cases h : name = bound
    · simp [h]
    · simp [h]

/-- A dictionary holds the names under which something is found. -/
theorem has_eq_isSome_lookup (name : String) (d : Dictionary α) : has name d = (d.lookup name).isSome := by
  rw [Bool.eq_iff_iff, isSome_lookup_iff, has, List.any_eq_true, names, List.mem_map]
  exact exists_congr fun entry => and_congr_right fun _ => beq_iff_eq

/-- Another value under a name that is held leaves the names as they are. -/
theorem names_put {name : String} {d : Dictionary α} (h : name ∈ d.names) (value : α) :
    (put name value d).names = d.names := by
  induction d with
  | nil => cases h
  | cons entry rest ih =>
    obtain ⟨bound, old⟩ := entry
    rw [put]
    split
    · rfl
    · next hne =>
      have hrest : name ∈ names rest := (List.mem_cons.mp h).resolve_left (Ne.symm hne)
      exact congrArg (bound :: ·) (ih hrest)

/-- A name that is held once is found with its value. -/
theorem lookup_of_mem {d : Dictionary α} (hnames : d.names.Nodup) {entry : String × α} (h : entry ∈ d) :
    d.lookup entry.1 = some entry.2 := by
  induction d with
  | nil => cases h
  | cons first rest ih =>
    obtain ⟨name, value⟩ := first
    obtain ⟨hfresh, hrest⟩ := List.nodup_cons.mp hnames
    rw [lookup_cons]
    rcases List.mem_cons.mp h with rfl | hmem
    · exact if_pos rfl
    · have hne : entry.1 ≠ name := fun heq =>
        hfresh (List.mem_map.mpr ⟨entry, hmem, heq⟩)
      rw [if_neg hne]
      exact ih hrest hmem

/-- What is found is there. -/
theorem mem_of_lookup {d : Dictionary α} {name : String} {value : α} (h : d.lookup name = some value) :
    (name, value) ∈ d := by
  induction d with
  | nil => cases h
  | cons entry rest ih =>
    obtain ⟨bound, first⟩ := entry
    rw [lookup_cons] at h
    split at h
    · next heq =>
      cases h
      exact heq ▸ List.mem_cons_self
    · exact List.mem_cons_of_mem _ (ih h)

/-- What is put in a dictionary, and what was in it before. -/
theorem mem_put {name : String} {value : α} {d : Dictionary α}
    {entry : String × α} (h : entry ∈ put name value d) : entry = (name, value) ∨ entry ∈ d := by
  induction d with
  | nil => exact Or.inl (List.mem_singleton.mp h)
  | cons first rest ih =>
    obtain ⟨bound, old⟩ := first
    rw [put] at h
    split at h
    · next hbound =>
      rcases List.mem_cons.mp h with heq | hrest
      · exact Or.inl (hbound ▸ heq)
      · exact Or.inr (List.mem_cons_of_mem _ hrest)
    · rcases List.mem_cons.mp h with heq | hrest
      · exact Or.inr (List.mem_cons.mpr (Or.inl heq))
      · rcases ih hrest with hnew | hold
        · exact Or.inl hnew
        · exact Or.inr (List.mem_cons_of_mem _ hold)

/-- What is kept of a dictionary by its names is put in as before, and the rest does not matter. -/
theorem filter_put (keep : String → Bool) (name : String) (value : α)
    (d : Dictionary α) :
    (put name value d).filter (fun entry => keep entry.1) =
      if keep name then put name value (d.filter fun entry => keep entry.1)
      else d.filter fun entry => keep entry.1 := by
  induction d with
  | nil => cases hkeep : keep name <;> simp [put, hkeep]
  | cons entry rest ih =>
    obtain ⟨bound, old⟩ := entry
    rw [put]
    by_cases hbound : bound = name
    · subst hbound
      cases hkeep : keep bound <;> simp [put, hkeep]
    · rw [if_neg hbound, List.filter_cons, ih]
      cases hkeep : keep name <;> cases hother : keep bound <;> simp [put, hother, hbound]

end Dictionary

end ReactiveTemplate
