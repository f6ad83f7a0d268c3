import ReactiveTemplate.Proofs.Document.Reachable

/-!
# Operations that are refused

An operation that is refused leaves the document as it was, whatever ids it was given. There is one
exception: a node that is to take the place of one that is gone has already been cut off when the
replacement is refused.
-/

namespace ReactiveTemplate.Document

variable {L : Type} {d : Document L} {e : DocumentError}

namespace Operation

/-- The answer to an operation. New nodes are never refused. -/
def answer (d : Document L) : Operation L → Except DocumentError Unit
  | createElement _ | createText _ => .ok ()
  | append parent child => (d.append parent child).1
  | replace old new => (d.replace old new).1
  | remove n => (d.remove n).1
  | setAttribute n name value => (d.setAttribute n name value).1
  | removeAttribute n name => (d.removeAttribute n name).1
  | addClass n name => (d.addClass n name).1
  | setStyle n property value => (d.setStyle n property value).1
  | addListener n event listener => (d.addListener n event listener).1

/-- A node with a parent is to take the place of one that is gone. -/
def Strands (d : Document L) : Operation L → Prop
  | replace old new => d.contains old = false ∧ (d.parent? new).isSome
  | _ => False

end Operation

/-! ### One operation after the other -/

/-- An operation on an element that is refused changes nothing. -/
theorem onElement_of_refused {n : NodeId} {f : Node L → Element → Node L}
    (h : (d.onElement n f).1 = .error e) : (d.onElement n f).2 = d := by
  rw [onElement] at h ⊢
  split
  · rfl
  · next node hnode =>
    simp only [hnode] at h
    split
    · next element hdata =>
      simp only [hdata] at h
      cases h
    · rfl

/-- A removal that is refused changes nothing. -/
theorem remove_of_refused {n : NodeId} (h : (d.remove n).1 = .error e) : (d.remove n).2 = d := by
  rw [remove] at h ⊢
  split
  · next hlive =>
    rw [if_pos hlive] at h
    cases h
  · rfl

/-- A replacement of a node that is gone by a live one is refused once the live one was cut off. -/
theorem replace_of_gone {old new : NodeId} (hlinked : d.Linked) (hold : d.contains old = false)
    (hnew : d.contains new = true) : d.replace old new = (.error (.staleNode old), d.detach new) := by
  have hnone : (d.detach new).node? old = none := by
    rw [node?_detach hlinked, Option.map_eq_none_iff]
    simpa [contains] using hold
  rw [replace_steps, if_pos hnew]
  simp only [hnone]

/-- A replacement of a live node by a live one is done. -/
theorem replace_of_live {old new : NodeId} (hlinked : (d.detach new).Linked)
    (hold : (d.detach new).contains old = true) (hnew : d.contains new = true) :
    (d.replace old new).1 = .ok () := by
  obtain ⟨node, hnode⟩ := contains_iff.mp hold
  have hparent := parent?_of_node? hnode
  rw [replace_steps, if_pos hnew]
  simp only [hnode]
  split
  · rfl
  · next p hp =>
    rw [hp] at hparent
    rw [if_pos (hlinked.mem_of_parent hparent)]

/-- A replacement that is refused changes nothing, unless it strands the new node. -/
theorem WellFormed.replace_of_refused (h : d.WellFormed) {old new : NodeId}
    (hrefused : (d.replace old new).1 = .error e) (hkept : ¬ (Operation.replace old new).Strands d) :
    (d.replace old new).2 = d := by
  by_cases hold : d.contains old = true
  · have hnew : ¬ d.contains new = true := by
      intro hnew
      rw [replace_of_live (h.detach new).linked (by rwa [contains_detach h.linked]) hnew] at hrefused
      cases hrefused
    rw [replace_steps, if_neg hnew]
  · have hroot : d.parent? new = none := by
      rw [← Option.not_isSome_iff_eq_none]
      exact fun hparent => hkept ⟨by simpa using hold, hparent⟩
    exact Document.replace_of_refused hroot hrefused

/-! ### All operations -/

/-- An operation that is refused changes nothing, unless it strands a node. -/
theorem WellFormed.apply_of_refused (h : d.WellFormed) {o : Operation L} (hrefused : o.answer d = .error e)
    (hkept : ¬ o.Strands d) : o.apply d = d := by
  cases o with
  | createElement | createText => cases hrefused
  | append parent child =>
    refine append_of_refused fun hok => ?_
    rw [Operation.answer, hok] at hrefused
    cases hrefused
  | replace old new => exact h.replace_of_refused hrefused hkept
  | remove n => exact remove_of_refused hrefused
  | setAttribute | removeAttribute | addClass | setStyle | addListener => exact onElement_of_refused hrefused

/-- An operation that strands a node cuts it off and changes nothing else. -/
theorem WellFormed.node?_of_strands (h : d.WellFormed) {old new : NodeId}
    (hstrands : (Operation.replace old new).Strands d) (n : NodeId) :
    ((Operation.replace old new).apply d).node? n = (d.node? n).map (severed new n) := by
  obtain ⟨hold, hparent⟩ := hstrands
  obtain ⟨p, hp⟩ := Option.isSome_iff_exists.mp hparent
  have hnew : d.contains new = true := contains_iff.mpr (node?_of_parent hp)
  rw [Operation.apply, replace_of_gone h.linked hold hnew, node?_detach h.linked]

/-- Whatever ids an operation is given: if it is refused, then every id means what it meant before, unless a
node with a parent was to take the place of one that is gone. In that case, and only then, something changes:
that node is cut off. -/
theorem Reachable.unchanged_iff_of_refused (h : d.Reachable) (o : Operation L) (hrefused : o.answer d = .error e) :
    ((∀ n, (o.apply d).node? n = d.node? n) ↔ ¬ o.Strands d) ∧
      ∀ old new, o = .replace old new → o.Strands d →
        ∀ n, (o.apply d).node? n = (d.node? n).map (severed new n) := by
  refine ⟨⟨fun hsame hstrands => ?_, fun hkept n => ?_⟩, fun old new ho hstrands n => ?_⟩
  · cases o with
    | replace old new =>
      have hcut := h.wellFormed.node?_of_strands hstrands new
      obtain ⟨p, hp⟩ := Option.isSome_iff_exists.mp hstrands.2
      obtain ⟨node, hnode⟩ := node?_of_parent hp
      rw [hsame, hnode, Option.map_some, Option.some.injEq] at hcut
      -- The node would have no parent before it was cut off.
      have hroot : node.parent = none := by
        rw [hcut]
        exact if_pos rfl
      rw [parent?_of_node? hnode, hroot] at hp
      cases hp
    | _ => exact hstrands
  · rw [h.wellFormed.apply_of_refused hrefused hkept]
  · subst ho
    exact h.wellFormed.node?_of_strands hstrands n

/-- A document with one paragraph, from which another node was removed. -/
def pruned : Document Unit :=
  let d := Operation.apply empty (.createElement "p")
  let d := Operation.apply d (.append ⟨0, 0⟩ ⟨1, 0⟩)
  let d := Operation.apply d (.createText "gone")
  Operation.apply d (.remove ⟨2, 0⟩)

/-- The document with one paragraph is reached by operations. -/
theorem reachable_pruned : pruned.Reachable := by
  refine .operation (.operation (.operation (.operation .empty (.createElement "p") id)
    (.append ⟨0, 0⟩ ⟨1, 0⟩) ?_) (.createText "gone") id) (.remove ⟨2, 0⟩) id
  exact Operation.not_entwines_append rfl (by decide)

/-- The paragraph is not appended to the node that is gone, and all stays as it was. -/
theorem Reachable.unchanged_iff_of_refused_append :
    pruned.Reachable ∧ (Operation.append ⟨2, 0⟩ ⟨1, 0⟩).answer pruned = .error (.staleNode ⟨2, 0⟩) ∧
      ∀ n, ((Operation.append ⟨2, 0⟩ ⟨1, 0⟩).apply pruned).node? n = pruned.node? n := by
  have hrefused : (Operation.append ⟨2, 0⟩ ⟨1, 0⟩).answer pruned = .error (.staleNode ⟨2, 0⟩) := by decide
  exact ⟨reachable_pruned, hrefused,
    (reachable_pruned.unchanged_iff_of_refused (.append ⟨2, 0⟩ ⟨1, 0⟩) hrefused).1.mpr id⟩

/-- The paragraph is to take the place of the node that is gone. That is refused, although it would put no node
below itself, and yet the paragraph is no longer in the body. -/
theorem replace_strands_paragraph :
    pruned.Reachable ∧ ¬ (Operation.replace ⟨2, 0⟩ ⟨1, 0⟩).Entwines pruned ∧
      (Operation.replace ⟨2, 0⟩ ⟨1, 0⟩).answer pruned = .error (.staleNode ⟨2, 0⟩) ∧
      pruned.parent? ⟨1, 0⟩ = some ⟨0, 0⟩ ∧ pruned.children ⟨0, 0⟩ = [⟨1, 0⟩] ∧
      ((Operation.replace ⟨2, 0⟩ ⟨1, 0⟩).apply pruned).parent? ⟨1, 0⟩ = none ∧
      ((Operation.replace ⟨2, 0⟩ ⟨1, 0⟩).apply pruned).children ⟨0, 0⟩ = [] := by
  refine ⟨reachable_pruned, fun hbelow => ?_, by decide, by decide, by decide, by decide, by decide⟩
  obtain ⟨p, hp, _⟩ := Relation.TransGen.head'_iff.mp hbelow
  cases (hp : none = some p)

end ReactiveTemplate.Document
