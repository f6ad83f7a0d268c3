import ReactiveTemplate.Component.Basic
import ReactiveTemplate.Proofs.Fallible

/-!
# Mounting components

A component that could be prepared is mounted at a live node, which lies under the body.
-/

namespace ReactiveTemplate

open Json

/-- A node under the body, other than the body itself, is live. -/
theorem Document.node?_of_isAttached {L : Type} {d : Document L} {n : NodeId} (hne : n ≠ d.body)
    (h : d.isAttached n = true) : ∃ node, d.node? n = some node := by
  cases hn : d.node? n with
  | some node => exact ⟨node, rfl⟩
  | none =>
    have hroot : d.parent? n = none := by rw [parent?, hn, Option.bind_none]
    rw [isAttached, lineage, lineageWithin, hroot, decide_eq_true_eq, List.mem_singleton] at h
    exact absurd h.symm hne

/-- A place at which a component can be mounted lies under the body. -/
theorem Mount.isAttached_of_resolve {L : Type} {m : Mount} {d : Document L} {n : NodeId}
    (h : m.resolve d = .ok n) : n ≠ d.body ∧ d.isAttached n = true := by
  have hplace {found : NodeId} {e : MountError}
      (hfound : (if found ≠ d.body ∧ d.isAttached found then .ok found else .error e) =
        (.ok n : Except MountError NodeId)) :
      n ≠ d.body ∧ d.isAttached n = true := by
    split at hfound
    · next hunder =>
      cases hfound
      exact hunder
    · cases hfound
  cases m with
  | selector text =>
    cases hquery : d.query? text with
    | none =>
      simp only [resolve, hquery] at h
      cases h
    | some found =>
      simp only [resolve, hquery] at h
      exact hplace h
  | node found =>
    dsimp only [resolve] at h
    split at h
    · exact hplace h
    · cases h

/-- A component that could be prepared is made of its blueprint, of the place at which it is mounted, and of what
the data and the template were compiled to. All actions of the template were checked against the data. -/
theorem Blueprint.exists_of_prepare {L : Type} {b : Blueprint} {d : Document L} {c : Component}
    (h : b.prepare d = .ok c) :
    ∃ mount store template cache, b.mount.resolve d = .ok mount ∧ Store.ofValue? b.data = some store ∧
      template.actions.forM (b.check store) = .ok () ∧
      c = { name := b.name.getD unnamed, template, methods := b.methods, computed := b.computed, hook := b.hook
            scheduler := .every b.interval, store, cache, root := mount, lastError := none, renderCount := 0 } := by
  obtain ⟨mount, hmount, h⟩ := ok_of_bind h
  have hresolve : b.mount.resolve d = .ok mount := by
    cases hresolve : b.mount.resolve d with
    | error e =>
      rw [hresolve] at hmount
      cases hmount
    | ok n =>
      rw [hresolve] at hmount
      cases hmount
      rfl
  dsimp only at h
  split at h
  · next hdata =>
    obtain ⟨store, hstore, h⟩ := ok_of_bind h
    cases hstore
    obtain ⟨template, _, h⟩ := ok_of_bind h
    obtain ⟨_, hchecked, h⟩ := ok_of_bind h
    cases h
    exact ⟨mount, _, _, _, hresolve, hdata, hchecked, rfl⟩
  · cases h

/-- A component that could be prepared is mounted where its blueprint says. -/
theorem Blueprint.resolve_of_prepare {L : Type} {b : Blueprint} {d : Document L} {c : Component}
    (h : b.prepare d = .ok c) : b.mount.resolve d = .ok c.root := by
  obtain ⟨mount, _, _, _, hresolve, _, _, rfl⟩ := exists_of_prepare h
  exact hresolve

/-- What a component that could be prepared takes from its blueprint, and where it is mounted. -/
theorem Blueprint.prepare_ok {L : Type} {b : Blueprint} {d : Document L} {c : Component}
    (h : b.prepare d = .ok c) :
    c.methods = b.methods ∧ c.hook = b.hook ∧ ∃ node, d.node? c.root = some node := by
  obtain ⟨mount, _, _, _, hresolve, _, _, rfl⟩ := exists_of_prepare h
  obtain ⟨hne, hattached⟩ := Mount.isAttached_of_resolve hresolve
  exact ⟨rfl, rfl, Document.node?_of_isAttached hne hattached⟩

end ReactiveTemplate
