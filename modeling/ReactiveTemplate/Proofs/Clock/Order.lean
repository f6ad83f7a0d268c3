import Mathlib.Data.List.Perm.Basic
import Mathlib.Data.List.Range
import ReactiveTemplate.Clock.Basic

/-!
# The order of timers

Timers fire in the order of their deadlines, and those of one deadline in the order of their numbers. The
timers that have fired and after them those that wait stand in this order, whichever way the clock goes on:
a timer is registered, the first one fires, or time passes in which none is due.
-/

namespace ReactiveTemplate

variable {τ : Type}

/-- A timer has its turn before another one. -/
def Timer.Before (a b : Timer τ) : Prop :=
  a.deadline < b.deadline ∨ a.deadline = b.deadline ∧ a.number < b.number

/-- A timer with its turn before another one is due no later. -/
theorem Timer.Before.deadline_le {a b : Timer τ} (h : a.Before b) : a.deadline ≤ b.deadline :=
  h.elim Nat.le_of_lt fun hsame => Nat.le_of_eq hsame.1

namespace Clock

variable {c c' : Clock τ} {timer : Timer τ} {timers rest : List (Timer τ)} {target : Nat}

/-! ### Waiting timers -/

/-- The timers after one more was placed among them. -/
theorem perm_place (timer : Timer τ) (timers : List (Timer τ)) :
    (place timer timers).Perm (timer :: timers) := by
  induction timers with
  | nil => exact List.Perm.refl _
  | cons first rest ih =>
    rw [place]
    split
    · exact (ih.cons first).trans (List.Perm.swap timer first rest)
    · exact List.Perm.refl _

/-- A timer is placed behind those that are due no later, and ahead of those that are. An order that goes by the
deadlines is kept if the timer has its place in it there. -/
theorem pairwise_place {R : Timer τ → Timer τ → Prop} (hdeadline : ∀ {a b}, R a b → a.deadline ≤ b.deadline)
    (hbehind : ∀ other ∈ timers, other.deadline ≤ timer.deadline → R other timer)
    (hahead : ∀ other, timer.deadline < other.deadline → R timer other) (h : timers.Pairwise R) :
    (place timer timers).Pairwise R := by
  induction timers with
  | nil => exact List.pairwise_singleton _ _
  | cons first rest ih =>
    obtain ⟨hfirst, hrest⟩ := List.pairwise_cons.mp h
    rw [place]
    split
    · next hle =>
      refine List.pairwise_cons.mpr ⟨fun other hother => ?_, ?_⟩
      · rcases List.mem_cons.mp ((perm_place timer rest).mem_iff.mp hother) with rfl | hother
        · exact hbehind first List.mem_cons_self hle
        · exact hfirst other hother
      · exact ih (fun other hother => hbehind other (List.mem_cons_of_mem first hother)) hrest
    · next hlt =>
      have hsooner : timer.deadline < first.deadline := Nat.lt_of_not_le hlt
      refine List.pairwise_cons.mpr ⟨fun other hother => hahead other ?_, h⟩
      rcases List.mem_cons.mp hother with rfl | hother
      · exact hsooner
      · exact Nat.lt_of_lt_of_le hsooner (hdeadline (hfirst other hother))

/-- Only the first timer is taken off the clock, and only when it is due. -/
theorem popDue?_eq_some {task : τ} (htimers : c.timers = timer :: rest)
    (h : c.popDue? target = some (task, c')) :
    task = timer.task ∧ timer.deadline ≤ target ∧
      c' = { c with now := max c.now timer.deadline, timers := rest } := by
  simp only [popDue?, htimers] at h
  split at h
  · next hdue =>
    cases h
    exact ⟨rfl, hdue, rfl⟩
  · cases h

/-- What is taken off the clock is its first timer. -/
theorem exists_of_popDue? {task : τ} (h : c.popDue? target = some (task, c')) :
    ∃ timer rest, c.timers = timer :: rest ∧ task = timer.task ∧ timer.deadline ≤ target ∧
      c' = { c with now := max c.now timer.deadline, timers := rest } := by
  cases htimers : c.timers with
  | nil => simp [popDue?, htimers] at h
  | cons timer rest => exact ⟨timer, rest, rfl, popDue?_eq_some htimers h⟩

/-- Time does not go back when a timer is taken off the clock. -/
theorem now_le_of_popDue? {task : τ} (h : c.popDue? target = some (task, c')) : c.now ≤ c'.now := by
  obtain ⟨timer, rest, _, _, _, rfl⟩ := exists_of_popDue? h
  exact Nat.le_max_left _ _

/-- No timer is due if the first one is not. -/
theorem popDue?_eq_none_iff : c.popDue? target = none ↔ ∀ timer ∈ c.timers.head?, target < timer.deadline := by
  rw [popDue?]
  cases c.timers with
  | nil => simp
  | cons first rest => simp

/-- Whether a timer is due by some time is no matter of the time that the clock shows. -/
theorem popDue?_setTime_eq_none {now : Nat} : (c.setTime now).popDue? target = none ↔ c.popDue? target = none := by
  rw [popDue?_eq_none_iff, popDue?_eq_none_iff, setTime]

/-- When no timer is due, all deadlines lie ahead. -/
theorem lt_deadline_of_popDue? (hdue : c.popDue? target = none)
    (hsorted : c.timers.Pairwise (·.deadline ≤ ·.deadline)) : ∀ timer ∈ c.timers, target < timer.deadline := by
  intro timer htimer
  rw [popDue?_eq_none_iff] at hdue
  cases htimers : c.timers with
  | nil =>
    rw [htimers] at htimer
    cases htimer
  | cons first rest =>
    rw [htimers] at hdue htimer hsorted
    have hfirst : target < first.deadline := hdue first rfl
    rcases List.mem_cons.mp htimer with rfl | htimer
    · exact hfirst
    · exact Nat.lt_of_lt_of_le hfirst ((List.pairwise_cons.mp hsorted).1 timer htimer)

/-! ### Timers that have fired -/

/-- A timer that fired, and what the clock showed then. -/
structure Firing (τ : Type) where
  timer : Timer τ
  time : Nat

/-- What is true of a clock and of the timers that fired on it since it started. -/
structure Punctual (fired : List (Firing τ)) (c : Clock τ) : Prop where
  /-- Every number that was given out belongs to one timer, which has fired or waits. -/
  accounted : (fired.map (·.timer.number) ++ c.timers.map Timer.number).Perm (List.range c.registered)
  /-- Those that fired had their turns one after the other, and those that wait have theirs after them. -/
  increasing : (fired.map Firing.timer ++ c.timers).Pairwise Timer.Before
  on_time : ∀ firing ∈ fired, firing.time = firing.timer.deadline
  past : ∀ firing ∈ fired, firing.timer.deadline ≤ c.now
  ahead : ∀ timer ∈ c.timers, c.now ≤ timer.deadline

namespace Punctual

variable {fired : List (Firing τ)}

/-- No timer was registered yet. -/
theorem start : Punctual [] (Clock.start : Clock τ) := by
  constructor <;> simp [Clock.start]

/-- A number that was given out is lower than the next one. -/
theorem number_lt (h : Punctual fired c) {number : Nat}
    (hnumber : number ∈ fired.map (·.timer.number) ++ c.timers.map Timer.number) : number < c.registered :=
  List.mem_range.mp (h.accounted.mem_iff.mp hnumber)

/-- A task is registered. -/
theorem after (h : Punctual fired c) (delay : Nat) (task : τ) : Punctual fired (c.after delay task) := by
  have hperm := perm_place ⟨c.now + delay, c.registered, task⟩ c.timers
  have hmem {other : Timer τ} : other ∈ (c.after delay task).timers ↔
      other = ⟨c.now + delay, c.registered, task⟩ ∨ other ∈ c.timers := hperm.mem_iff.trans List.mem_cons
  obtain ⟨hfired, hwaiting, hbetween⟩ := List.pairwise_append.mp h.increasing
  refine ⟨?_, List.pairwise_append.mpr ⟨hfired, ?_, fun before hbefore other hother => ?_⟩, h.on_time, h.past,
    fun other hother => ?_⟩
  · rw [Clock.after, List.range_succ]
    refine ((hperm.map Timer.number).append_left _).trans (List.perm_middle.trans ?_)
    exact (h.accounted.cons _).trans (List.perm_append_singleton _ _).symm
  · refine pairwise_place Timer.Before.deadline_le (fun other hother hle => ?_) (fun _ => Or.inl) hwaiting
    have hlower : other.number < c.registered :=
      h.number_lt (List.mem_append_right _ (List.mem_map_of_mem hother))
    exact (Nat.lt_or_eq_of_le hle).imp_right fun hsame => ⟨hsame, hlower⟩
  · rcases hmem.mp hother with rfl | hother
    · obtain ⟨firing, hfiring, rfl⟩ := List.mem_map.mp hbefore
      have hlower : firing.timer.number < c.registered :=
        h.number_lt (List.mem_append_left _ (List.mem_map_of_mem hfiring))
      have hpast := Nat.le_trans (h.past firing hfiring) (Nat.le_add_right c.now delay)
      exact (Nat.lt_or_eq_of_le hpast).imp_right fun hsame => ⟨hsame, hlower⟩
    · exact hbetween before hbefore other hother
  · rcases hmem.mp hother with rfl | hother
    · exact Nat.le_add_right c.now delay
    · exact h.ahead other hother

/-- The first timer fires. -/
theorem fire (h : Punctual fired c) (htimers : c.timers = timer :: rest) :
    Punctual (fired ++ [⟨timer, max c.now timer.deadline⟩])
      { c with now := max c.now timer.deadline, timers := rest } := by
  have hmax : max c.now timer.deadline = timer.deadline :=
    Nat.max_eq_right (h.ahead timer (htimers ▸ List.mem_cons_self))
  have haccounted := h.accounted
  have hincreasing := h.increasing
  rw [htimers] at haccounted hincreasing
  obtain ⟨_, hwaiting, _⟩ := List.pairwise_append.mp hincreasing
  rw [hmax]
  refine ⟨?_, ?_, fun firing hfiring => ?_, fun firing hfiring => ?_, fun other hother => ?_⟩
  · rw [List.map_append, List.append_assoc]
    exact haccounted
  · rw [List.map_append, List.append_assoc]
    exact hincreasing
  · rcases List.mem_append.mp hfiring with hfiring | hfiring
    · exact h.on_time firing hfiring
    · rw [List.mem_singleton.mp hfiring]
  · rcases List.mem_append.mp hfiring with hfiring | hfiring
    · exact Nat.le_trans (h.past firing hfiring) (hmax ▸ Nat.le_max_left _ _)
    · rw [List.mem_singleton.mp hfiring]
  · exact ((List.pairwise_cons.mp hwaiting).1 other hother).deadline_le

/-- When no timer is due, all deadlines lie ahead. -/
theorem lt_deadline (h : Punctual fired c) (hdue : c.popDue? target = none) :
    ∀ timer ∈ c.timers, target < timer.deadline :=
  lt_deadline_of_popDue? hdue ((List.pairwise_append.mp h.increasing).2.1.imp Timer.Before.deadline_le)

/-- Time passes up to a time by which no timer is due. -/
theorem pass (h : Punctual fired c) (hdue : c.popDue? target = none) (hnow : c.now ≤ target) :
    Punctual fired (c.setTime target) where
  accounted := h.accounted
  increasing := h.increasing
  on_time := h.on_time
  past firing hfiring := Nat.le_trans (h.past firing hfiring) hnow
  ahead timer htimer := Nat.le_of_lt (h.lt_deadline hdue timer htimer)

end Punctual

end Clock

end ReactiveTemplate
