import Mathlib.Data.List.Nodup
import Mathlib.Data.List.Perm.Basic
import ReactiveTemplate.Proofs.Clock.Steps

/-!
# Timers are accounted for

Along an orderly path every timer that was placed has either fired or still waits, under a number of its own.
It fires at its deadline, and none waits past it.
-/

namespace ReactiveTemplate.ClockScript

/-! ### Timers placed, fired and waiting -/

/-- The timers placed on a path. -/
def placed (history : List Occurrence) : List (Timer Task) :=
  history.filterMap Occurrence.placed?

/-- The timers fired on a path, with the time. -/
def firings (history : List Occurrence) : List (Timer Task × Nat) :=
  history.filterMap Occurrence.firing?

/-- The firings of the timer with a number. -/
def firingsOf (number : Nat) (history : List Occurrence) : List (Timer Task × Nat) :=
  (firings history).filter (·.1.number = number)

/-- The timers placed by one occurrence more. -/
theorem placed_concat (history : List Occurrence) (o : Occurrence) :
    placed (history ++ [o]) = placed history ++ o.placed?.toList := by
  rw [placed, List.filterMap_append]
  cases h : o.placed? <;> simp [h, placed]

/-- The timers fired by one occurrence more. -/
theorem firings_concat (history : List Occurrence) (o : Occurrence) :
    firings (history ++ [o]) = firings history ++ o.firing?.toList := by
  rw [firings, List.filterMap_append]
  cases h : o.firing? <;> simp [h, firings]

/-- What an orderly occurrence does to the clock: it places a timer, leaves the clock alone, takes off the
first timer at its time, or moves time up to the first deadline. -/
theorem Happens.clock_cases {s s' : State} {o : Occurrence} (h : Happens s o s') (ho : o.Orderly s) :
    (∃ timer, o.placed? = some timer ∧ o.firing? = none ∧ timer.number = s.clock.registered ∧
      s.clock.now ≤ timer.deadline ∧ s'.clock =
        { s.clock with registered := s.clock.registered + 1, timers := Clock.place timer s.clock.timers }) ∨
    (o.placed? = none ∧ o.firing? = none ∧ s'.clock = s.clock) ∨
    (∃ timer rest, o = .fired timer (max s.clock.now timer.deadline) ∧ s.clock.timers = timer :: rest ∧
      s'.clock = { s.clock with now := max s.clock.now timer.deadline, timers := rest }) ∨
    ∃ target, o = .passed target ∧ s.clock.popDue? target = none ∧ s.clock.now ≤ target ∧
      s'.clock = s.clock.setTime target := by
  cases h with
  | register htask => exact Or.inl ⟨_, rfl, rfl, rfl, Nat.le_add_right _ _, rfl⟩
  | @request _ n scheduler label steps taken hn h =>
    rw [request_eq hn] at h
    cases hpending : scheduler.pending with
    | true =>
      simp only [hpending, if_true, Bool.not_true, Option.some.injEq, Prod.mk.injEq] at h
      obtain ⟨rfl, rfl⟩ := h
      exact Or.inr (Or.inl ⟨rfl, rfl, rfl⟩)
    | false =>
      simp only [hpending, Bool.false_eq_true, if_false, Bool.not_false, Option.some.injEq,
        Prod.mk.injEq] at h
      obtain ⟨rfl, rfl⟩ := h
      exact Or.inl ⟨_, rfl, rfl, rfl, Nat.le_add_right _ _, rfl⟩
  | @fire timer rest target clock htimers h =>
    obtain ⟨_, _, rfl⟩ := Clock.popDue?_eq_some htimers h
    exact Or.inr (Or.inr (Or.inl ⟨timer, rest, rfl, htimers, rfl⟩))
  | pass target => exact Or.inr (Or.inr (Or.inr ⟨target, rfl, ho.1, ho.2, rfl⟩))
  | clear => exact ho.elim

/-- A path accounts for the timers of the clock that it leads to. -/
structure Accounted (history : List Occurrence) (clock : Clock Task) : Prop where
  placed_perm : (placed history).Perm ((firings history).map Prod.fst ++ clock.timers)
  nodup_numbers : ((placed history).map Timer.number).Nodup
  number_lt : ∀ timer ∈ placed history, timer.number < clock.registered
  on_time : ∀ firing ∈ firings history, firing.2 = firing.1.deadline
  ahead : ∀ timer ∈ clock.timers, clock.now ≤ timer.deadline
  sorted : clock.timers.Pairwise (·.deadline ≤ ·.deadline)

namespace Accounted

variable {history : List Occurrence} {s s' : State} {o : Occurrence} {clock : Clock Task}
  {timer : Timer Task}

/-- Nothing has happened. -/
theorem start : Accounted [] Clock.start := by
  constructor <;> simp [placed, firings, Clock.start]

/-- One timer more is placed. -/
theorem place (h : Accounted history clock) (hplaced : o.placed? = some timer) (hfiring : o.firing? = none)
    (hnumber : timer.number = clock.registered) (hdeadline : clock.now ≤ timer.deadline) :
    Accounted (history ++ [o])
      { clock with registered := clock.registered + 1, timers := Clock.place timer clock.timers } := by
  constructor
  · rw [placed_concat, firings_concat, hplaced, hfiring, Option.toList_some, Option.toList_none,
      List.append_nil]
    refine (List.perm_append_singleton timer _).trans ((h.placed_perm.cons timer).trans ?_)
    exact List.perm_middle.symm.trans ((Clock.perm_place timer _).symm.append_left _)
  · rw [placed_concat, hplaced, Option.toList_some, List.map_append, List.map_singleton]
    refine List.nodup_append.mpr ⟨h.nodup_numbers, List.nodup_singleton _, fun number hmem other hother => ?_⟩
    obtain ⟨before, hbefore, rfl⟩ := List.mem_map.mp hmem
    rw [List.mem_singleton.mp hother, hnumber]
    exact Nat.ne_of_lt (h.number_lt before hbefore)
  · intro other hother
    rw [placed_concat, hplaced, Option.toList_some, List.mem_append, List.mem_singleton] at hother
    rcases hother with hother | rfl
    · exact Nat.lt_succ_of_lt (h.number_lt other hother)
    · exact hnumber ▸ Nat.lt_succ_self _
  · rw [firings_concat, hfiring, Option.toList_none, List.append_nil]
    exact h.on_time
  · intro other hother
    rcases List.mem_cons.mp ((Clock.perm_place timer _).mem_iff.mp hother) with rfl | hother
    · exact hdeadline
    · exact h.ahead other hother
  · exact Clock.pairwise_place id (fun _ _ hle => hle) (fun _ hlt => Nat.le_of_lt hlt) h.sorted

/-- Nothing is placed and nothing fires, and no time passes that a timer waits for. -/
theorem wait (h : Accounted history clock) (hplaced : o.placed? = none) (hfiring : o.firing? = none)
    {now : Nat} (hnow : ∀ timer ∈ clock.timers, now ≤ timer.deadline) :
    Accounted (history ++ [o]) (clock.setTime now) := by
  have hplacedAll : placed (history ++ [o]) = placed history := by
    rw [placed_concat, hplaced, Option.toList_none, List.append_nil]
  have hfirings : firings (history ++ [o]) = firings history := by
    rw [firings_concat, hfiring, Option.toList_none, List.append_nil]
  refine ⟨?_, hplacedAll ▸ h.nodup_numbers, hplacedAll ▸ h.number_lt, hfirings ▸ h.on_time, hnow, h.sorted⟩
  rw [hplacedAll, hfirings]
  exact h.placed_perm

/-- The first timer fires. -/
theorem fire (h : Accounted history clock) {rest : List (Timer Task)} (htimers : clock.timers = timer :: rest) :
    Accounted (history ++ [.fired timer (max clock.now timer.deadline)])
      { clock with now := max clock.now timer.deadline, timers := rest } := by
  have hmax : max clock.now timer.deadline = timer.deadline :=
    Nat.max_eq_right (h.ahead timer (by rw [htimers]; exact List.mem_cons_self))
  have hplaced : placed (history ++ [.fired timer timer.deadline]) = placed history :=
    (placed_concat _ _).trans (List.append_nil _)
  have hfirings : firings (history ++ [.fired timer timer.deadline]) =
      firings history ++ [(timer, timer.deadline)] := firings_concat _ _
  have hperm := h.placed_perm
  have hsorted := h.sorted
  rw [htimers] at hperm hsorted
  obtain ⟨hfirst, hrest⟩ := List.pairwise_cons.mp hsorted
  rw [hmax]
  refine ⟨?_, hplaced ▸ h.nodup_numbers, hplaced ▸ h.number_lt, ?_, hfirst, hrest⟩
  · rw [hplaced, hfirings, List.map_append, List.map_singleton, List.append_assoc]
    exact hperm
  · intro firing hmem
    rw [hfirings, List.mem_append, List.mem_singleton] at hmem
    rcases hmem with hmem | rfl
    · exact h.on_time firing hmem
    · rfl

/-- An occurrence more. -/
theorem happens (h : Accounted history s.clock) (horderly : o.Orderly s) (ho : Happens s o s') :
    Accounted (history ++ [o]) s'.clock := by
  rcases ho.clock_cases horderly with ⟨timer, hplaced, hfiring, hnumber, hdeadline, hclock⟩ |
    ⟨hplaced, hfiring, hclock⟩ | ⟨timer, rest, rfl, htimers, hclock⟩ | ⟨target, rfl, hdue, _, hclock⟩
  · rw [hclock]
    exact h.place hplaced hfiring hnumber hdeadline
  · rw [hclock]
    exact h.wait hplaced hfiring h.ahead
  · rw [hclock]
    exact h.fire htimers
  · rw [hclock]
    refine h.wait rfl rfl fun timer htimer => ?_
    exact Nat.le_of_lt (Clock.lt_deadline_of_popDue? hdue h.sorted timer htimer)

/-- Several occurrences more. -/
theorem path {later : List Occurrence} (h : Accounted history s.clock)
    (hpath : Path Occurrence.Orderly s later s') : Accounted (history ++ later) s'.clock := by
  induction hpath generalizing history with
  | nil => simpa using h
  | cons horderly ho _ ih => simpa using ih (h.happens horderly ho)

/-- Timers that fired were placed. -/
theorem placed_of_fired (h : Accounted history clock) {timer : Timer Task} {time : Nat}
    (hfired : .fired timer time ∈ history) : timer ∈ placed history := by
  apply h.placed_perm.mem_iff.mpr
  apply List.mem_append_left
  exact List.mem_map.mpr ⟨(timer, time), List.mem_filterMap.mpr ⟨_, hfired, rfl⟩, rfl⟩

end Accounted

/-- Among pairs that differ in a key, those with the key of a member are the member alone. -/
theorem filter_key_eq_singleton {α : Type} {key : α → Nat} {as : List α} (hnodup : (as.map key).Nodup)
    {a : α} (ha : a ∈ as) : as.filter (key · = key a) = [a] := by
  induction as with
  | nil => cases ha
  | cons first rest ih =>
    obtain ⟨hfirst, hrest⟩ := List.nodup_cons.mp hnodup
    rcases List.mem_cons.mp ha with rfl | ha
    · have hnone : rest.filter (key · = key a) = [] := by
        apply List.filter_eq_nil_iff.mpr
        intro b hb hkey
        rw [decide_eq_true_eq] at hkey
        exact hfirst (hkey ▸ List.mem_map_of_mem hb)
      rw [List.filter_cons_of_pos (by simp), hnone]
    · have hne : key first ≠ key a := by
        intro hkey
        exact hfirst (hkey ▸ List.mem_map_of_mem ha)
      rw [List.filter_cons_of_neg (by simpa using hne), ih hrest ha]

namespace Accounted

variable {history : List Occurrence} {clock : Clock Task} {timer : Timer Task}

/-- The firings and the waiting timers differ in their numbers. -/
theorem nodup_firings_append (h : Accounted history clock) :
    ((firings history).map (·.1.number) ++ clock.timers.map Timer.number).Nodup := by
  have hperm := h.placed_perm.map Timer.number
  rw [List.map_append, List.map_map] at hperm
  exact hperm.nodup_iff.mp h.nodup_numbers

/-- A timer that was placed waits, or has fired once and on time. -/
theorem waits_or_fired (h : Accounted history clock) (htimer : timer ∈ placed history) :
    (timer ∈ clock.timers ∧ firingsOf timer.number history = []) ∨
      firingsOf timer.number history = [(timer, timer.deadline)] := by
  obtain ⟨hfirings, _, hdisjoint⟩ := List.nodup_append.mp h.nodup_firings_append
  rcases List.mem_append.mp (h.placed_perm.mem_iff.mp htimer) with hfired | hwaits
  · right
    obtain ⟨firing, hmem, rfl⟩ := List.mem_map.mp hfired
    have hsingle := filter_key_eq_singleton hfirings hmem
    rw [firingsOf, hsingle, ← h.on_time firing hmem]
  · left
    refine ⟨hwaits, List.filter_eq_nil_iff.mpr fun firing hmem hnumber => ?_⟩
    rw [decide_eq_true_eq] at hnumber
    exact hdisjoint _ (List.mem_map_of_mem hmem) _ (List.mem_map_of_mem hwaits) hnumber

end Accounted

end ReactiveTemplate.ClockScript
