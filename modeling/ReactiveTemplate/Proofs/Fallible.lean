import Mathlib.Data.List.Forall2

/-!
# Computations that may fail

A computation in several steps gives a result only if each step does, and fails only as its steps fail. Two
computations that go the same way step by step fail with the same error or give results that are related.
-/

namespace ReactiveTemplate

variable {ε α β α' β' : Type}

/-- What a part of a successful computation gave. -/
theorem ok_of_bind {m : Except ε α} {f : α → Except ε β} {b : β} (h : m >>= f = .ok b) :
    ∃ a, m = .ok a ∧ f a = .ok b := by
  cases m with
  | error e => cases h
  | ok a => exact ⟨a, rfl, h⟩

/-- An answer of which the first part is known. Said of any answer, so that using it evaluates nothing. -/
theorem eq_of_fst {answer : α × β} {a : α} (h : answer.1 = a) : answer = (a, answer.2) := by
  rw [← h]

/-- A run that comes to an answer of which the first part is known. -/
theorem eq_some_of_fst {run : Option (α × β)} {answer : α × β} {a : α} (hrun : run = some answer)
    (h : answer.1 = a) : run = some (a, answer.2) := by
  rw [hrun, ← h]

/-- With other errors a computation gives the same results. -/
theorem mapError_eq_ok_iff {ε' : Type} {f : ε → ε'} {m : Except ε α} {a : α} :
    m.mapError f = .ok a ↔ m = .ok a := by
  cases m <;> simp [Except.mapError]

/-- With other errors a computation fails as before. -/
theorem mapError_eq_error_iff {ε' : Type} {f : ε → ε'} {m : Except ε α} {e' : ε'} :
    m.mapError f = .error e' ↔ ∃ e, m = .error e ∧ f e = e' := by
  cases m <;> simp [Except.mapError]

/-- What was done for each item of a list succeeded for each. -/
theorem ok_of_forM {f : α → Except ε Unit} {as : List α} (h : as.forM f = .ok ()) {a : α} (ha : a ∈ as) :
    f a = .ok () := by
  induction as with
  | nil => exact absurd ha List.not_mem_nil
  | cons first rest ih =>
    obtain ⟨_, hfirst, hrest⟩ := ok_of_bind (f := fun _ => rest.forM f) h
    rcases List.mem_cons.mp ha with rfl | ha
    · exact hfirst
    · exact ih hrest ha

/-- Each result of a computation for each item of a list comes of one of them. -/
theorem exists_of_mem_mapM {f : α → Except ε β} {as : List α} {bs : List β} (h : as.mapM f = .ok bs) {b : β}
    (hb : b ∈ bs) : ∃ a ∈ as, f a = .ok b := by
  induction as generalizing bs with
  | nil =>
    cases h
    exact absurd hb List.not_mem_nil
  | cons a rest ih =>
    rw [List.mapM_cons] at h
    obtain ⟨first, hfirst, hmore⟩ := ok_of_bind h
    obtain ⟨more, hrest, hbs⟩ := ok_of_bind hmore
    cases hbs
    rcases List.mem_cons.mp hb with rfl | hb
    · exact ⟨a, List.mem_cons_self, hfirst⟩
    · obtain ⟨a', ha', hfound⟩ := ih hrest hb
      exact ⟨a', List.mem_cons_of_mem _ ha', hfound⟩

/-- A computation for each item of a list succeeds if it does for each of them. -/
theorem mapM_eq_ok_iff {f : α → Except ε β} {as : List α} {bs : List β} :
    as.mapM f = .ok bs ↔ List.Forall₂ (fun a b => f a = .ok b) as bs := by
  constructor
  · intro h
    induction as generalizing bs with
    | nil =>
      cases h
      exact .nil
    | cons a rest ih =>
      rw [List.mapM_cons] at h
      obtain ⟨first, hfirst, hmore⟩ := ok_of_bind h
      obtain ⟨more, hrest, hbs⟩ := ok_of_bind hmore
      cases hbs
      exact .cons hfirst (ih hrest)
  · intro h
    induction h with
    | nil => rfl
    | cons hfirst _ ih =>
      rw [List.mapM_cons, hfirst, ih]
      rfl

/-- A computation fails with certain errors only. -/
def FailsWith (P : ε → Prop) (m : Except ε α) : Prop :=
  ∀ e, m = .error e → P e

namespace FailsWith

variable {P : ε → Prop}

/-- What gives a result does not fail. -/
theorem ok (a : α) : FailsWith P (.ok a : Except ε α) :=
  fun _ => nofun

/-- A computation in two steps. -/
theorem bind {m : Except ε α} {f : α → Except ε β} (hm : FailsWith P m) (hf : ∀ a, m = .ok a → FailsWith P (f a)) :
    FailsWith P (m >>= f) := by
  cases m with
  | error e =>
    intro e' h
    cases h
    exact hm e rfl
  | ok a => exact hf a rfl

/-- A step for each item of a list. -/
theorem mapM {f : α → Except ε β} {as : List α} (hf : ∀ a ∈ as, FailsWith P (f a)) : FailsWith P (as.mapM f) := by
  induction as with
  | nil => exact ok []
  | cons a rest ih =>
    rw [List.mapM_cons]
    refine (hf a List.mem_cons_self).bind fun b _ => ?_
    exact (ih fun other hmem => hf other (List.mem_cons_of_mem _ hmem)).bind fun bs _ => ok _

end FailsWith

/-- A computation fails with certain errors only, or gives certain results. -/
inductive Yields (P : ε → Prop) (Q : α → Prop) : Except ε α → Prop where
  | ok {a : α} (h : Q a) : Yields P Q (.ok a)
  | error {e : ε} (h : P e) : Yields P Q (.error e)

namespace Yields

variable {P : ε → Prop} {Q : α → Prop} {R : β → Prop}

/-- The errors are those. -/
theorem failsWith {m : Except ε α} (h : Yields P Q m) : FailsWith P m := by
  rintro e rfl
  cases h with
  | error h => exact h

/-- A computation in two steps. -/
theorem bind {m : Except ε α} {f : α → Except ε β} (hm : Yields P Q m) (hf : ∀ a, Q a → Yields P R (f a)) :
    Yields P R (m >>= f) := by
  cases hm with
  | ok h => exact hf _ h
  | error h => exact .error h

end Yields

/-- The same error, or results that are related. -/
inductive SameOutcome (R : α → α' → Prop) : Except ε α → Except ε α' → Prop where
  | ok {a : α} {a' : α'} (h : R a a') : SameOutcome R (.ok a) (.ok a')
  | error (e : ε) : SameOutcome R (.error e) (.error e)

namespace SameOutcome

variable {R : α → α' → Prop} {S : β → β' → Prop}

/-- Outcomes with equal results are equal. -/
theorem eq {m m' : Except ε α} (h : SameOutcome Eq m m') : m = m' := by
  cases h with
  | ok h => rw [h]
  | error e => rfl

/-- A computation in two steps. -/
theorem bind {m : Except ε α} {m' : Except ε α'} {f : α → Except ε β} {f' : α' → Except ε β'}
    (hm : SameOutcome R m m') (hf : ∀ a a', R a a' → SameOutcome S (f a) (f' a')) :
    SameOutcome S (m >>= f) (m' >>= f') := by
  cases hm with
  | ok h => exact hf _ _ h
  | error e => exact .error e

/-- A step for each item of a list. -/
theorem mapM {f : α → Except ε β} {f' : α' → Except ε β'} {as : List α} {as' : List α'}
    (h : List.Forall₂ (fun a a' => SameOutcome S (f a) (f' a')) as as') :
    SameOutcome (List.Forall₂ S) (as.mapM f) (as'.mapM f') := by
  induction h with
  | nil => exact .ok .nil
  | cons hfirst _ ih =>
    rw [List.mapM_cons, List.mapM_cons]
    exact hfirst.bind fun b b' hb => ih.bind fun bs bs' hbs => .ok (.cons hb hbs)

end SameOutcome

end ReactiveTemplate
