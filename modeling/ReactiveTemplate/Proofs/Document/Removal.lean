import ReactiveTemplate.Proofs.Document.Trees

/-!
# Freeing and replacing trees

Freeing a node takes away exactly the ids of its tree. Removing a node frees its tree after cutting it
off; replacing a node puts another one at its place and then frees it. Both keep a document well
formed, a replacement unless the new node lies above the old one.
-/

namespace ReactiveTemplate.Document

open Relation

variable {L : Type} {d : Document L}

/-! ### Freeing -/

/-- Released ids are not live, all others mean what they meant. -/
theorem node?_foldl_release (ns : List NodeId) (d : Document L) (m : NodeId) :
    (ns.foldl release d).node? m = if m ∈ ns then none else d.node? m := by
  induction ns generalizing d with
  | nil => simp
  | cons n ns ih =>
    rw [List.foldl_cons, ih, node?_release]
    by_cases hmn : m = n
    · simp [hmn]
    · simp [hmn]

/-- Freeing an id that is not live changes nothing. -/
theorem freeTree_of_node?_eq_none {n : NodeId} (hn : d.node? n = none) : d.freeTree n = d := by
  have hchildren : d.children n = [] := by simp [children, hn]
  rw [freeTree, postorder]
  cases d.slots.size with
  | zero => rfl
  | succ fuel => simp [postorderWithin, hchildren, release, hn]

/-- Freeing a tree takes away its ids and nothing else. -/
theorem node?_freeTree (hd : d.Linked) {t : Subtree} (ht : d.Holds t) (m : NodeId) :
    (d.freeTree t.id).node? m = if m ∈ t.ids then none else d.node? m := by
  rw [freeTree, ht.postorder hd, node?_foldl_release]

/-- Freeing a node without a parent keeps a document well formed. -/
theorem WellFormed.freeTree (h : d.WellFormed) {n : NodeId} (hroot : d.parent? n = none) :
    (d.freeTree n).WellFormed := by
  cases hn : d.node? n with
  | none => rwa [freeTree_of_node?_eq_none hn]
  | some node =>
    obtain ⟨t, rfl, ht⟩ := h.exists_holds hn
    have hread := node?_freeTree h.linked ht
    refine ⟨FreeList.stable.freeTree h.freeList _, h.linked.prune (· ∈ t.ids) ?_ ?_ ?_, ?_⟩
    · intro m p hp
      rw [ht.mem_ids_iff h.linked, ht.mem_ids_iff h.linked]
      refine ⟨fun hwithin => ?_, fun hwithin => hwithin.head hp⟩
      rcases ReflTransGen.cases_head hwithin with rfl | ⟨q, hq, hbehind⟩
      · rw [hp] at hroot
        contradiction
      · exact Option.some.inj (hp.symm.trans hq) ▸ hbehind
    · intro m
      rw [parent?, hread]
      split <;> rfl
    · intro m
      rw [children, hread]
      split <;> simp_all [children]
    · intro m x content hm hx
      rw [hread] at hm
      split at hm
      · contradiction
      · exact h.text_bare hm hx

/-! ### Removing -/

/-- Cutting off the uppermost node of a tree leaves the tree as it is. -/
theorem Holds.detach (h : d.WellFormed) {t : Subtree} (ht : d.Holds t) : (d.detach t.id).Holds t := by
  refine ht.congr fun m hm node hnode => ⟨if m = t.id then none else node.parent, ?_⟩
  have hout : d.parent? t.id ≠ some m := by
    intro hparent
    exact h.linked.acyclic m (TransGen.tail' ((ht.mem_ids_iff h.linked m).mp hm) hparent)
  rw [node?_detach h.linked, hnode, Option.map_some, severed, filter_children h.linked hnode hout]

/-- Removing a live node is done. Its tree is freed, and its parent has the same children without it. -/
theorem remove_eq (h : d.WellFormed) {t : Subtree} (ht : d.Holds t) :
    (d.remove t.id).1 = .ok () ∧
      ∀ m, (d.remove t.id).2.node? m = if m ∈ t.ids then none else (d.node? m).map (severed t.id m) := by
  have hlive : d.contains t.id = true := contains_iff.mpr ht.node?
  simp only [remove, hlive, if_true, true_and]
  intro m
  rw [node?_freeTree (h.detach t.id).linked (ht.detach h), node?_detach h.linked]

/-- Removing a node keeps a document well formed. -/
theorem WellFormed.remove (h : d.WellFormed) (n : NodeId) : (d.remove n).2.WellFormed := by
  rw [Document.remove]
  split
  · exact (h.detach n).freeTree (by rw [parent?_detach h.linked, if_pos rfl])
  · exact h

@[simp]
theorem body_remove (d : Document L) (n : NodeId) : (d.remove n).2.body = d.body :=
  (stable_body d.body).remove rfl n

/-! ### Replacing -/

/-- A node after `new` has taken the place of `old`, whose parent was `up`. -/
def exchanged (old new : NodeId) (up : Option NodeId) (m : NodeId) (node : Node L) : Node L :=
  { node with
    parent := if m = new then up else node.parent
    children := node.children.replace old new }

/-- A node that is nobody's child has no place to be taken. -/
theorem replace_children (h : d.Linked) {old m : NodeId} (new : NodeId) {node : Node L}
    (hm : d.node? m = some node)
    (hp : d.parent? old ≠ some m) : node.children.replace old new = node.children := by
  refine List.replace_of_not_mem fun hmem => hp (h.parent_of_mem ?_)
  rwa [children_of_node? hm]

/-- The links after `new`, which had no parent, was put at the place of `old`. -/
def relink (d : Document L) (old new p : NodeId) : Document L :=
  ((d.modify p fun node => { node with children := node.children.replace old new }).modify new
    fun node => { node with parent := some p }).modify old fun node => { node with parent := none }

section Relink

variable (h : d.WellFormed) {old new p : NodeId} (hold : d.parent? old = some p)
  (hroot : d.parent? new = none) (hpath : ¬ d.Within p new) (hnew : d.contains new = true)

include h hold hroot hpath

/-- The node of every id after relinking, the old one apart. -/
theorem node?_relink (m : NodeId) (hm : m ≠ old) :
    (d.relink old new p).node? m = (d.node? m).map (exchanged old new (some p) m) := by
  have hpo := h.linked.ne_of_parent hold
  have hpn : p ≠ new := fun heq => hpath (heq ▸ .refl)
  rw [relink, node?_modify, if_neg hm, node?_modify, node?_modify, node?_modify, if_neg hpn.symm]
  cases hnode : d.node? m with
  | none => grind
  | some node =>
    by_cases hmp : m = p
    · subst hmp
      simp [hpn, exchanged, hnode]
    · have hkeep := replace_children h.linked new hnode (fun heq =>
        hmp (Option.some.inj (heq.symm.trans hold)))
      by_cases hmn : m = new
      · subst hmn
        simp [exchanged, hnode, hkeep]
      · simp [exchanged, hmn, hmp, hkeep]

/-- The old node after relinking. -/
theorem node?_relink_old :
    (d.relink old new p).node? old = (d.node? old).map fun node => { node with parent := none } := by
  have hpo := h.linked.ne_of_parent hold
  have hon : old ≠ new := by
    intro heq
    subst heq
    rw [hold] at hroot
    contradiction
  rw [relink, node?_modify, if_pos rfl, node?_modify, if_neg hon, node?_modify, if_neg hpo]

include hnew in
/-- The parents after relinking. -/
theorem parent?_relink (m : NodeId) :
    (d.relink old new p).parent? m =
      if m = old then none else if m = new then some p else d.parent? m := by
  by_cases hmo : m = old
  · rw [hmo, if_pos rfl, parent?, node?_relink_old h hold hroot hpath]
    cases d.node? old <;> rfl
  · rw [if_neg hmo, parent?, node?_relink h hold hroot hpath m hmo]
    cases hm : d.node? m with
    | none =>
      have hmn : m ≠ new := by
        intro heq
        subst heq
        exact absurd hm (by simpa [Option.isSome_iff_ne_none, contains] using hnew)
      simp [hmn, parent?, hm]
    | some node => simp [exchanged, parent?, hm]

/-- The children after relinking. -/
theorem children_relink (m : NodeId) :
    (d.relink old new p).children m =
      if m = p then (d.children p).replace old new else d.children m := by
  by_cases hmo : m = old
  · rw [hmo, if_neg (h.linked.ne_of_parent hold), children, node?_relink_old h hold hroot hpath]
    cases hm : d.node? old <;> simp [children, hm]
  · rw [children, node?_relink h hold hroot hpath m hmo]
    cases hm : d.node? m with
    | none =>
      have hmp : m ≠ p := by
        intro heq
        subst heq
        obtain ⟨mother, hmother⟩ := h.linked.node?_of_parent hold
        rw [hm] at hmother
        contradiction
      simp [hmp, children, hm]
    | some node =>
      by_cases hmp : m = p
      · subst hmp
        rw [if_pos rfl, children_of_node? hm]
        rfl
      · have hkeep := replace_children h.linked new hm (fun heq =>
          hmp (Option.some.inj (heq.symm.trans hold)))
        rw [if_neg hmp, children_of_node? hm]
        exact hkeep

include hnew in
/-- Relinking keeps a document well formed. -/
theorem WellFormed.relink : (d.relink old new p).WellFormed := by
  obtain ⟨front, back, hfamily, hout⟩ := List.eq_append_cons_of_mem (h.linked.mem_of_parent hold)
  have hplace : (d.children p).replace old new = front ++ new :: back := by
    rw [hfamily, List.replace_append_right hout, List.replace_cons_self]
  have hchildren := children_relink h hold hroot hpath
  rw [hplace] at hchildren
  refine ⟨((h.freeList.modify _ _).modify _ _).modify _ _,
    h.linked.swap hold hroot hpath hfamily (parent?_relink h hold hroot hpath hnew) hchildren, ?_⟩
  intro m x content hm hx
  by_cases hmo : m = old
  · rw [hmo, node?_relink_old h hold hroot hpath, Option.map_eq_some_iff] at hm
    obtain ⟨before, hbefore, rfl⟩ := hm
    have hbare := h.text_bare hbefore hx
    exact hbare
  · rw [node?_relink h hold hroot hpath m hmo, Option.map_eq_some_iff] at hm
    obtain ⟨before, hbefore, rfl⟩ := hm
    have hbare := h.text_bare hbefore hx
    simp [exchanged, hbare]

/-- Relinking leaves the tree of the old node as it is. -/
theorem Holds.relink {t : Subtree} (ht : d.Holds t) (hid : t.id = old) : (d.relink old new p).Holds t := by
  apply ht.congr
  intro m hm node hnode
  by_cases hmo : m = old
  · exact ⟨none, by rw [hmo, node?_relink_old h hold hroot hpath, ← hmo, hnode]; rfl⟩
  · refine ⟨if m = new then some p else node.parent, ?_⟩
    have hout : d.parent? old ≠ some m := by
      intro hparent
      rw [← hid] at hparent
      exact h.linked.acyclic m (TransGen.tail' ((ht.mem_ids_iff h.linked m).mp hm) hparent)
    rw [node?_relink h hold hroot hpath m hmo, hnode, Option.map_some, exchanged,
      replace_children h.linked new hnode hout]

end Relink

/-- A replacement cuts off the new node, relinks and frees, as far as it gets. -/
theorem replace_steps (d : Document L) (old new : NodeId) :
    d.replace old new =
      if d.contains new then
        match (d.detach new).node? old with
        | none => (.error (.staleNode old), d.detach new)
        | some node =>
          match node.parent with
          | none => (.ok (), (d.detach new).freeTree old)
          | some p =>
            if old ∈ (d.detach new).children p then
              (.ok (), ((d.detach new).relink old new p).freeTree old)
            else (.error (.notAChild p old), d.detach new)
      else (.error (.staleNode new), d) :=
  rfl

/-- What is no matter of links stays true when a node is put at the place of another. -/
theorem Stable.relink {I : Document L → Prop} (hI : Stable I) (h : I d) (old new p : NodeId) :
    I (d.relink old new p) := by
  rw [Document.relink]
  refine hI.relinked (hI.relinked (hI.relinked h p ?_) new ?_) old ?_ <;> exact fun _ => ⟨rfl, rfl⟩

/-- What is no matter of links and not lost with a node stays true when a node is replaced. -/
theorem Stable.replace {I : Document L → Prop} (hI : Stable I) (h : I d) (old new : NodeId) :
    I (d.replace old new).2 := by
  have hcut := hI.detach h new
  rw [replace_steps]
  split
  · split
    · exact hcut
    · split
      · exact hI.freeTree hcut old
      · split
        · dsimp only
          exact hI.freeTree (hI.relink hcut old new _) old
        · exact hcut
  · exact h

/-- A replacement by a node without a parent that is refused changes nothing. -/
theorem replace_of_refused {old new : NodeId} (hroot : d.parent? new = none) {e : DocumentError}
    (h : (d.replace old new).1 = .error e) : (d.replace old new).2 = d := by
  rw [replace_steps, show d.detach new = d by rw [detach, hroot]] at h ⊢
  by_cases hnew : d.contains new = true
  · rw [if_pos hnew] at h ⊢
    cases hnode : d.node? old with
    | none => rfl
    | some node =>
      cases hparent : node.parent with
      | none =>
        simp only [hnode, hparent] at h
        cases h
      | some p =>
        simp only [hnode, hparent] at h ⊢
        split at h
        · cases h
        · next hout => rw [if_neg hout]
  · rw [if_neg hnew]

/-- Replacing a live node by another one that is not above it is done. The new node leaves its old place
and takes that of the old one, whose tree, as far as it is not that of the new node, is freed. -/
theorem replace_eq (h : d.WellFormed) {old new : NodeId} (hne : old ≠ new) (hnew : d.contains new = true)
    (hpath : ¬ d.Below old new) {t : Subtree} (ht : (d.detach new).Holds t) (hid : t.id = old) :
    (d.replace old new).1 = .ok () ∧
      ∀ m, (d.replace old new).2.node? m =
        if m ∈ t.ids then none
        else ((d.detach new).node? m).map (exchanged old new (d.parent? old) m) := by
  have hcut := h.detach new
  have hup : (d.detach new).parent? old = d.parent? old := by
    rw [parent?_detach h.linked, if_neg hne]
  have hroot : (d.detach new).parent? new = none := by rw [parent?_detach h.linked, if_pos rfl]
  obtain ⟨node, hnode⟩ := ht.node?
  rw [hid] at hnode
  have hparent := parent?_of_node? hnode
  rw [hup] at hparent
  rw [replace_steps, if_pos hnew]
  simp only [hnode]
  split
  · next hnone =>
    refine ⟨rfl, fun m => ?_⟩
    rw [hparent, hnone, ← hid, node?_freeTree hcut.linked ht]
    split
    · rfl
    · cases hm : (d.detach new).node? m with
      | none => rfl
      | some x =>
        have hkeep := replace_children hcut.linked new hm
          (show (d.detach new).parent? t.id ≠ some m by rw [hid, hup, hparent, hnone]; simp)
        have hx : (if m = new then none else x.parent) = x.parent := by
          split
          · next hmn => rw [← parent?_of_node? hm, hmn, hroot]
          · rfl
        rw [Option.map_some, exchanged, hkeep, hx]
  · next p hp =>
    rw [hp] at hparent
    rw [hparent] at hup
    have hout : ¬ (d.detach new).Within p new := by
      intro hwithin
      exact hpath (TransGen.head' hparent (within_of_detach h.linked hwithin))
    rw [if_pos (hcut.linked.mem_of_parent hup)]
    refine ⟨rfl, fun m => ?_⟩
    have hafter := hcut.relink hup hroot hout (by rwa [contains_detach h.linked])
    have hfreed := node?_freeTree hafter.linked (ht.relink hcut hup hroot hout hid) m
    rw [hid] at hfreed
    dsimp only
    rw [hfreed]
    by_cases hm : m ∈ t.ids
    · rw [if_pos hm, if_pos hm]
    · have hmo : m ≠ old := fun heq => hm (by rw [heq, ← hid]; exact t.id_mem_ids)
      rw [if_neg hm, if_neg hm, node?_relink hcut hup hroot hout m hmo, hparent]

/-- Replacing keeps a document well formed, unless the new node lies above the old one. -/
theorem WellFormed.replace (h : d.WellFormed) {old new : NodeId} (hpath : ¬ d.Below old new) :
    (d.replace old new).2.WellFormed := by
  have hcut := h.detach new
  have hroot : (d.detach new).parent? new = none := by rw [parent?_detach h.linked, if_pos rfl]
  rw [replace_steps]
  split
  · next hnew =>
    rw [← contains_detach h.linked new] at hnew
    split
    · exact hcut
    · next node hnode =>
      have hparent := parent?_of_node? hnode
      split
      · next hnone => exact hcut.freeTree (by rw [hparent, hnone])
      · next p hp =>
        rw [hp] at hparent
        have hne : old ≠ new := by
          intro heq
          subst heq
          rw [hparent] at hroot
          contradiction
        have hup : d.parent? old = some p := by
          rwa [parent?_detach h.linked, if_neg hne] at hparent
        have hout : ¬ (d.detach new).Within p new := by
          intro hwithin
          exact hpath (TransGen.head' hup (within_of_detach h.linked hwithin))
        split
        · dsimp only
          apply (hcut.relink hparent hroot hout hnew).freeTree
          rw [parent?, node?_relink_old hcut hparent hroot hout, hnode]
          rfl
        · exact hcut
  · exact h

@[simp]
theorem body_replace (d : Document L) (old new : NodeId) : (d.replace old new).2.body = d.body :=
  (stable_body d.body).replace rfl old new

end ReactiveTemplate.Document
