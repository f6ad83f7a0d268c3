import Mathlib
import ReactiveTemplate.Text.Blank

/-!
# Runs of characters

A run of a class ends where the text ends or goes on with a character outside the class. A text is its
blanks in front, what is left when it is trimmed, and its blanks behind.
-/

namespace ReactiveTemplate.Text

/-- The next character, if there is one, is not in a class. -/
def Ends (p : Char → Bool) (rest : List Char) : Prop :=
  ∀ c ∈ rest.head?, p c = false

section Ends

variable {p q : Char → Bool} {taken rest : List Char}

/-- A class ends at the end of the text. -/
theorem ends_nil (p : Char → Bool) : Ends p [] := by
  intro c hc
  contradiction

/-- A class ends at a character outside. -/
theorem ends_cons {c : Char} (h : p c = false) (rest : List Char) : Ends p (c :: rest) := by
  intro d hd
  rw [List.head?_cons, Option.mem_some_iff] at hd
  exact hd ▸ h

/-- A class ends where a larger one does. -/
theorem Ends.mono (h : Ends p rest) (hle : ∀ c, q c = true → p c = true) : Ends q rest := by
  intro c hc
  exact Bool.eq_false_iff.mpr fun hq => Bool.eq_false_iff.mp (h c hc) (hle c hq)

/-- Where a class ends does not depend on what follows, unless nothing stands in between. -/
theorem Ends.append (h : Ends p taken) (hrest : Ends p rest) : Ends p (taken ++ rest) := by
  cases taken with
  | nil => exact hrest
  | cons c more => exact ends_cons (h c rfl) _

/-- A class ends in a part where it ends in the whole. -/
theorem Ends.of_append (h : Ends p (taken ++ rest)) : Ends p taken := by
  cases taken with
  | nil => exact ends_nil p
  | cons c more => exact ends_cons (h c rfl) _

/-- A class ends where its run has been dropped. -/
theorem ends_dropWhile (p : Char → Bool) (cs : List Char) : Ends p (cs.dropWhile p) := by
  intro c hc
  have hfirst := List.head?_dropWhile_not p cs
  rw [Option.mem_def.mp hc] at hfirst
  exact hfirst

/-- Nothing is taken where a class ends. -/
theorem Ends.takeWhile_eq (h : Ends p rest) : rest.takeWhile p = [] := by
  cases rest with
  | nil => rfl
  | cons c more => rw [List.takeWhile_cons, h c rfl]; rfl

/-- Nothing is dropped where a class ends. -/
theorem Ends.dropWhile_eq (h : Ends p rest) : rest.dropWhile p = rest := by
  cases rest with
  | nil => rfl
  | cons c more => rw [List.dropWhile_cons, h c rfl]; rfl

/-- A run is taken up to where its class ends. -/
theorem takeWhile_append_of_ends (htaken : ∀ c ∈ taken, p c = true) (hrest : Ends p rest) :
    (taken ++ rest).takeWhile p = taken := by
  rw [List.takeWhile_append_of_pos htaken, hrest.takeWhile_eq, List.append_nil]

/-- A run is dropped up to where its class ends. -/
theorem dropWhile_append_of_ends (htaken : ∀ c ∈ taken, p c = true) (hrest : Ends p rest) :
    (taken ++ rest).dropWhile p = rest := by
  rw [List.dropWhile_append_of_pos htaken, hrest.dropWhile_eq]

/-- What is taken of a run does not depend on what follows it outside the class. -/
theorem Ends.takeWhile_append (h : Ends p rest) (cs : List Char) :
    (cs ++ rest).takeWhile p = cs.takeWhile p := by
  rw [List.takeWhile_append]
  split
  · next hlength => rw [h.takeWhile_eq, List.append_nil, (List.takeWhile_prefix p).eq_of_length hlength]
  · rfl

/-- What is left of a run stays in front of what follows it outside the class. -/
theorem Ends.dropWhile_append (h : Ends p rest) (cs : List Char) :
    (cs ++ rest).dropWhile p = cs.dropWhile p ++ rest := by
  rw [List.dropWhile_append]
  split
  · next hempty => rw [h.dropWhile_eq, List.isEmpty_iff.mp hempty, List.nil_append]
  · rfl

end Ends

/-- The first place of a character is behind what does not hold it. -/
theorem idxOf?_append_cons {c : Char} {before : List Char} (h : c ∉ before) (rest : List Char) :
    (before ++ c :: rest).idxOf? c = some before.length := by
  induction before with
  | nil => simp [List.idxOf?_cons]
  | cons d before ih =>
    obtain ⟨hd, hbefore⟩ := not_or.mp (List.mem_cons.not.mp h)
    simp [List.idxOf?_cons, ih hbefore, Ne.symm hd]

/-! ### Trimming -/

section Trim

variable {cs blanks : List Char}

/-- Nothing is trimmed from what does not start with a blank. -/
theorem trimStart_of_ends (h : Ends isBlank cs) : trimStart cs = cs :=
  h.dropWhile_eq

/-- Nothing is trimmed from a text without blanks. -/
theorem trim_of_no_blanks (h : ∀ c ∈ cs, isBlank c = false) : trim cs = cs := by
  have hends {ds : List Char} (hds : ∀ c ∈ ds, isBlank c = false) : Ends isBlank ds :=
    fun c hc => hds c (List.mem_of_mem_head? hc)
  rw [trim, trimStart_of_ends (hends h), trimEnd,
    (hends fun c hc => h c (List.mem_reverse.mp hc)).dropWhile_eq, List.reverse_reverse]

/-- Blanks in front do not matter. -/
theorem trim_blanks_append (h : ∀ c ∈ blanks, isBlank c = true) : trim (blanks ++ cs) = trim cs := by
  rw [trim, trim, trimStart, trimStart, List.dropWhile_append_of_pos h]

/-- Nothing is left of blanks. -/
theorem trim_of_blanks (h : ∀ c ∈ blanks, isBlank c = true) : trim blanks = [] := by
  rw [trim, trimStart, List.dropWhile_eq_nil_iff.mpr h]
  rfl

/-- Blanks behind do not matter. -/
theorem trim_append_blanks (h : ∀ c ∈ blanks, isBlank c = true) : trim (cs ++ blanks) = trim cs := by
  have hend (ds : List Char) : trimEnd (ds ++ blanks) = trimEnd ds := by
    rw [trimEnd, trimEnd, List.reverse_append,
      List.dropWhile_append_of_pos fun c hc => h c (List.mem_reverse.mp hc)]
  by_cases hcs : ∀ c ∈ cs, isBlank c = true
  · rw [trim_blanks_append hcs, trim_of_blanks hcs, trim_of_blanks h]
  · have hne : (cs.dropWhile isBlank).isEmpty = false := by
      rwa [List.isEmpty_eq_false_iff, ne_eq, List.dropWhile_eq_nil_iff]
    rw [trim, trim, trimStart, trimStart, List.dropWhile_append, if_neg (by simp [hne]), hend]

/-- The blanks in front of a text that is not blank do not depend on what follows it. -/
theorem takeWhile_isBlank_append (h : ∃ c ∈ cs, isBlank c = false) (rest : List Char) :
    (cs ++ rest).takeWhile isBlank = cs.takeWhile isBlank := by
  obtain ⟨c, hc, hblank⟩ := h
  have hlength : (cs.takeWhile isBlank).length ≠ cs.length := by
    intro hlength
    rw [(List.takeWhile_prefix isBlank).eq_of_length hlength |>.symm] at hc
    rw [List.mem_takeWhile_imp hc] at hblank
    contradiction
  rw [List.takeWhile_append, if_neg hlength]

/-- A text is its blanks in front, what is trimmed, and its blanks behind. -/
theorem exists_blanks_of_trim (cs : List Char) : ∃ behind, (∀ c ∈ behind, isBlank c = true) ∧
    cs = cs.takeWhile isBlank ++ trim cs ++ behind := by
  refine ⟨((trimStart cs).reverse.takeWhile isBlank).reverse, ?_, ?_⟩
  · intro c hc
    exact List.mem_takeWhile_imp (List.mem_reverse.mp hc)
  · rw [trim, trimEnd, List.append_assoc, ← List.reverse_append, List.takeWhile_append_dropWhile,
      List.reverse_reverse, trimStart, List.takeWhile_append_dropWhile]

/-- Nothing is left of blanks only. -/
theorem trim_eq_nil_iff : trim cs = [] ↔ ∀ c ∈ cs, isBlank c = true := by
  refine ⟨fun hnil => ?_, trim_of_blanks⟩
  obtain ⟨behind, hbehind, hcs⟩ := exists_blanks_of_trim cs
  rw [hcs, hnil, List.append_nil]
  exact List.forall_mem_append.mpr ⟨fun c hc => List.mem_takeWhile_imp hc, hbehind⟩

/-- What is left when a text is trimmed was in it. -/
theorem mem_of_mem_trim {c : Char} (h : c ∈ trim cs) : c ∈ cs := by
  obtain ⟨behind, _, hcs⟩ := exists_blanks_of_trim cs
  rw [hcs]
  exact List.mem_append_left _ (List.mem_append_right _ h)

/-- Nothing is trimmed from what is trimmed already. -/
theorem trim_trim (cs : List Char) : trim (trim cs) = trim cs := by
  obtain ⟨behind, hbehind, hcs⟩ := exists_blanks_of_trim cs
  conv_rhs => rw [hcs, trim_append_blanks hbehind]
  rw [trim_blanks_append fun c hc => List.mem_takeWhile_imp hc]

end Trim

end ReactiveTemplate.Text
