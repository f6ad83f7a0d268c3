import ReactiveTemplate.Proofs.Clock.Clearing
import ReactiveTemplate.Proofs.Page.Acting
import ReactiveTemplate.Proofs.Page.Steady

/-!
# Writes that no render follows

A write that changes a public field asks the scheduler of its component for a render. If the clock is cleared while
that scheduler is pending, nothing will end the wait: later writes are absorbed one after the other, and however far
the clock is moved, the component is not rendered.
-/

namespace ReactiveTemplate.Page

open Json

variable {p q q' : Page} {id : ComponentId} {c : Component} {cb : Callbacks}

/-- A write adds one timer to the clock or none. -/
theorem clock_write (hc : p.component? id = some c) (field : String) (value : Value) :
    (p.write id field value).2.clock =
      if (c.write field value).2.1 then p.clock.after c.scheduler.interval id else p.clock := by
  rw [write, hc]
  dsimp only
  split
  · rw [armRender, c.interval_write]
    rfl
  · rfl

/-- Fields of a component are written and the clock is moved, in any order. -/
inductive Idles (cb : Callbacks) (id : ComponentId) (p : Page) : Page → Prop
  | refl : Idles cb id p p
  | write {q : Page} (h : Idles cb id p q) (field : String) (value : Value) : Idles cb id p (q.write id field value).2
  | advance {q q' : Page} {milliseconds : Nat} {fired : List Firing} (h : Idles cb id p q)
      (hrun : advance cb milliseconds q = some (fired, q')) : Idles cb id p q'
  | settle {q q' : Page} {fired : List Firing} (h : Idles cb id p q) (hrun : settle cb q = some (fired, q')) :
      Idles cb id p q'

/-- No timer waits on the later page and no render was completed since, though one of the component is pending. -/
structure Dormant (id : ComponentId) (p q : Page) : Prop where
  timers : q.clock.timers = []
  still : Still id p q
  pending : ∃ c, q.component? id = some c ∧ c.scheduler.pending = true

namespace Dormant

/-- The clock is cleared while a render is pending. -/
theorem clear (hc : p.component? id = some c) (hpending : c.scheduler.pending = true) :
    Dormant id p { p with clock := p.clock.clear } where
  timers := rfl
  still := ⟨rfl, rfl, fun _ _ => rfl, fun {c} hc => ⟨c, hc, .refl c⟩⟩
  pending := ⟨c, hc, hpending⟩

/-- A write is absorbed. -/
theorem write (h : Dormant id p q) (field : String) (value : Value) : Dormant id p (q.write id field value).2 := by
  obtain ⟨c, hc, hpending⟩ := h.pending
  have hwritten := Passage.write id q field value
  obtain ⟨c', hc', _⟩ := hwritten.still.record hc
  refine ⟨?_, h.still.trans hwritten.still, c', hc', (hwritten.pending hc hc').mpr (Or.inl hpending)⟩
  have harms : (c.write field value).2.1 = false := by
    refine Bool.eq_false_iff.mpr fun harms => ?_
    rw [((c.arms_write field value).mp harms).1] at hpending
    cases hpending
  rw [clock_write hc, harms]
  exact h.timers

/-- The clock is set to another time. -/
theorem setTime (h : Dormant id p q) (now : Nat) : Dormant id p { q with clock := q.clock.setTime now } where
  timers := h.timers
  still := ⟨h.still.document, h.still.handles, h.still.others, h.still.record⟩
  pending := h.pending

/-- Whatever is written, and however far the clock is moved, nothing is rendered. -/
theorem idles (h : Dormant id p q) (hq : Idles cb id q q') : Dormant id p q' := by
  induction hq with
  | refl => exact h
  | write _ field value ih => exact ih.write field value
  | advance _ hrun ih =>
    obtain ⟨_, rfl⟩ := ClockHost.advance_of_empty ih.timers hrun
    exact ih.setTime _
  | settle _ hrun ih =>
    obtain ⟨_, rfl⟩ := ClockHost.settle_of_empty ih.timers hrun
    exact ih

end Dormant

/-- Every run of a script from schedulers of given delays has one chronicle, whatever its callbacks do. At every moment
that it tells of, a scheduler is pending though no timer of it waits exactly if the steps up to then have cleared one
away, which is never made up for. It is no different with components: a write that changes a public field arms a timer
if no render is pending; but if the clock is cleared while one is, all later writes are absorbed, and no render comes of
them however far the clock is moved. -/
theorem cleared_while_pending (intervals : List Nat) :
    (∀ depth fuel steps s,
      ClockScript.performAll (ClockScript.host depth) fuel steps (.start intervals) = some ((), s) →
      ∃ answers history, ClockScript.Chronicle (.steps steps) (.start intervals) answers history s ∧
        (∀ answers' history' s', ClockScript.Chronicle (.steps steps) (.start intervals) answers' history' s' →
          history' = history) ∧
        ClockScript.Evolves (.start intervals) history s) ∧
    (∀ before after s, ClockScript.Evolves (.start intervals) (before ++ after) s →
      ∃ moment, ClockScript.Evolves (.start intervals) before moment ∧ ClockScript.Evolves moment after s ∧
        ∀ n scheduler, moment.schedulers[n]? = some scheduler →
          ClockScript.Standing moment (before.flatMap ClockScript.Occurrence.lost) n scheduler) ∧
    ∀ (p : Page) id c, p.component? id = some c →
      (c.scheduler.pending = false → ∀ field value, (p.write id field value).1 = .ok true →
        Store.isPrivate field = false → (p.write id field value).2.clock = p.clock.after c.scheduler.interval id) ∧
      (c.scheduler.pending = true → ∀ cb q, Idles cb id { p with clock := p.clock.clear } q → Dormant id p q) := by
  refine ⟨fun depth fuel steps s hrun => ?_, fun before after s h => ?_,
    fun p id c hc => ⟨fun hpending field value hchanged hpublic => ?_,
      fun hpending cb q hq => (Dormant.clear hc hpending).idles hq⟩⟩
  · obtain ⟨answers, history, htold⟩ := ClockScript.exists_chronicle_of_performAll hrun
    exact ⟨answers, history, htold, fun _ _ _ h' => (htold.unique h').2.1, htold.evolves⟩
  · obtain ⟨moment, hbefore, hafter⟩ := ClockScript.Path.append_iff.mp h
    exact ⟨moment, hbefore, hafter, fun n scheduler hn => hbefore.standing hn⟩
  · have hanswer : (p.write id field value).1 = (c.write field value).1 := by
      rw [write, hc]
    rw [clock_write hc, if_pos ((c.arms_write field value).mpr ⟨hpending, hanswer ▸ hchanged, hpublic⟩)]

end ReactiveTemplate.Page
