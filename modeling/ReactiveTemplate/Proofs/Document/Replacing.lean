import ReactiveTemplate.Proofs.Document.Refusal

/-!
# One node in the place of another

`Replaced d d' old new` says that `new` stands in the second document where `old` stood in the first, with
all that is below it, and that of the tree of `old` nothing is left but what lies within `new`. A replacement
of a live node by any other live node that is not above it leads there. A node that is to take its own place
is freed instead: it is cut off before its place is looked up.
-/

namespace ReactiveTemplate.Document

open Relation

variable {L : Type} {d d' : Document L} {old new : NodeId}

/-- The node `new` has taken the place of `old`, whose tree is gone as far as it is not that of `new`. -/
structure Replaced (d d' : Document L) (old new : NodeId) : Prop where
  /-- What lay within `old` is gone unless it lies within `new`, and nothing else is. -/
  live : ∀ n, d'.contains n = true ↔ d.contains n = true ∧ ¬ (d.Within n old ∧ ¬ d.Within n new)
  /-- The new node is what it was, with the parent of the old one. -/
  self : ∀ {node}, d.node? new = some node → d'.node? new = some { node with parent := d.parent? old }
  below : ∀ {n}, d.Below n new → d'.node? n = d.node? n
  tree : d'.subtree? new = d.subtree? new
  /-- Among the other children of the parent, the new node stands where the old one stood. -/
  place : ∀ {p}, d.parent? old = some p → ∃ front back,
    (d.children p).filter (· ≠ new) = front ++ old :: back ∧ d'.children p = front ++ new :: back
  others : ∀ {n node}, n ≠ new → d.node? n = some node → d'.contains n = true →
    d'.node? n = some { node with children := (node.children.filter (· ≠ new)).replace old new }

/-! ### What is below a node that was cut off -/

/-- What lies within a node once another one was cut off is what lay within it, but not within the other. -/
theorem within_detach_iff (h : d.Linked) (hold : ¬ d.Within old new) {n : NodeId} :
    (d.detach new).Within n old ↔ d.Within n old ∧ ¬ d.Within n new := by
  constructor
  · intro hwithin
    refine ⟨within_of_detach h hwithin, fun hnew => ?_⟩
    -- The path from `n` to `new` is still there up to `new`, and ends there.
    induction hnew using ReflTransGen.head_induction_on with
    | refl =>
      have hroot : (d.detach new).parent? new = none := by rw [parent?_detach h, if_pos rfl]
      exact hold (eq_of_within_of_parent_none hroot hwithin ▸ .refl)
    | @head n p hp hbehind ih =>
      rcases ReflTransGen.cases_head hwithin with rfl | ⟨q, hq, habove⟩
      · exact hold (.head hp hbehind)
      · have hclimbs : d.Climbs n q := by
          rw [Climbs, parent?_detach h] at hq
          split at hq
          · cases hq
          · exact hq
        exact ih (climbs_rightUnique hclimbs hp ▸ habove)
  · rintro ⟨hwithin, hout⟩
    induction hwithin using ReflTransGen.head_induction_on with
    | refl => exact .refl
    | @head n p hp _ ih =>
      have hne : n ≠ new := fun heq => hout (heq ▸ .refl)
      have hkept : (d.detach new).Climbs n p := by rwa [Climbs, parent?_detach h, if_neg hne]
      exact .head hkept (ih fun hwithin => hout (.head hp hwithin))

/-! ### Replacing a node by another one -/

section Other

variable (h : d.WellFormed) (hold : d.contains old = true) (hnew : d.contains new = true)
  (hne : old ≠ new) (hpath : ¬ d.Below old new)

include h hold hnew hne hpath

open Classical in
/-- The node of every id after a replacement by another node. -/
theorem node?_replace (m : NodeId) :
    (d.replace old new).2.node? m =
      if (d.detach new).Within m old then none
      else ((d.node? m).map (severed new m)).map (exchanged old new (d.parent? old) m) := by
  have hcut := h.detach new
  rw [← contains_detach h.linked new old] at hold
  obtain ⟨node, hnode⟩ := contains_iff.mp hold
  obtain ⟨t, rfl, ht⟩ := hcut.exists_holds hnode
  rw [(replace_eq h hne hnew hpath ht rfl).2, node?_detach h.linked]
  simp only [ht.mem_ids_iff hcut.linked m]

/-- A replacement by another node is done, and the new node has the place of the old one. -/
theorem WellFormed.replaced : (d.replace old new).1 = .ok () ∧ Replaced d (d.replace old new).2 old new := by
  have hread := node?_replace h hold hnew hne hpath
  have hout : ¬ d.Within old new := by
    intro hwithin
    rcases reflTransGen_iff_eq_or_transGen.mp hwithin with heq | hbelow
    · exact hne heq.symm
    · exact hpath hbelow
  have hkeep {n : NodeId} (hwithin : d.Within n new) : ¬ (d.detach new).Within n old :=
    fun hcut => ((within_detach_iff h.linked hout).mp hcut).2 hwithin
  -- A node within the new one is the parent of neither of the two.
  have hown {n : NodeId} {node : Node L} (hn : d.node? n = some node) (hwithin : d.Within n new) :
      (node.children.filter (· ≠ new)).replace old new = node.children := by
    rw [filter_children h.linked hn fun hp => h.linked.acyclic new (.head' hp hwithin),
      replace_children h.linked new hn fun hp => hpath (.head' hp hwithin)]
  have hself {node : Node L} (hn : d.node? new = some node) :
      (d.replace old new).2.node? new = some { node with parent := d.parent? old } := by
    rw [hread, if_neg (hkeep .refl), hn, Option.map_some, Option.map_some, exchanged, severed, if_pos rfl,
      hown hn .refl]
  have hbelow {n : NodeId} (hn : d.Below n new) : (d.replace old new).2.node? n = d.node? n := by
    have hne : n ≠ new := fun heq => h.linked.acyclic new (heq ▸ hn)
    rw [hread, if_neg (hkeep hn.to_reflTransGen)]
    cases hnode : d.node? n with
    | none => rfl
    | some node =>
      rw [Option.map_some, Option.map_some, exchanged, severed, if_neg hne, if_neg hne,
        hown hnode hn.to_reflTransGen]
  refine ⟨?_, fun n => ?_, hself, hbelow, ?_, fun {p} hp => ?_, fun {n node} hn hnode hlive => ?_⟩
  · rw [← contains_detach h.linked new old] at hold
    exact replace_of_live (h.detach new).linked hold hnew
  · rw [← within_detach_iff h.linked hout, contains, hread]
    split
    · next hgone => simp [hgone]
    · next hkept => simp [hkept, contains]
  · obtain ⟨node, hnode⟩ := contains_iff.mp hnew
    obtain ⟨t, rfl, ht⟩ := h.exists_holds hnode
    have ht' : (d.replace old t.id).2.Holds t := by
      refine ht.congr fun n hn node hnode => ?_
      rcases reflTransGen_iff_eq_or_transGen.mp ((ht.mem_ids_iff h.linked n).mp hn) with heq | hn
      · subst heq
        exact ⟨_, hself hnode⟩
      · exact ⟨node.parent, by rw [hbelow hn, hnode]⟩
    rw [ht.subtree? h.linked, ht'.subtree? (h.replace hpath).linked]
  · obtain ⟨above, habove⟩ := h.linked.node?_of_parent hp
    have hstays : old ∈ (d.children p).filter (· ≠ new) :=
      List.mem_filter.mpr ⟨h.linked.mem_of_parent hp, decide_eq_true hne⟩
    obtain ⟨front, back, hfamily, hfirst⟩ := List.eq_append_cons_of_mem hstays
    refine ⟨front, back, hfamily, ?_⟩
    have hkept : ¬ (d.detach new).Within p old := fun hcut =>
      h.linked.acyclic old (.head' hp (within_of_detach h.linked hcut))
    have hafter := hread p
    rw [if_neg hkept, habove, Option.map_some, Option.map_some] at hafter
    rw [children_of_node? hafter, exchanged, severed, ← children_of_node? habove, hfamily,
      List.replace_append_right hfirst, List.replace_cons_self]
  · rw [contains, hread] at hlive
    rw [hread]
    split at hlive
    · cases hlive
    · next hkept => rw [if_neg hkept, hnode, Option.map_some, Option.map_some, exchanged, severed, if_neg hn, if_neg hn]

end Other

/-! ### Replacing a node by itself -/

/-- A node that is to take its own place has no parent by the time its place is looked up, and is freed. -/
theorem WellFormed.replace_self (h : d.WellFormed) (n : NodeId) : d.replace n n = d.remove n := by
  rw [replace_steps, Document.remove]
  by_cases hn : d.contains n = true
  · rw [if_pos hn, if_pos hn]
    have hcut := hn
    rw [← contains_detach h.linked n n] at hcut
    obtain ⟨node, hnode⟩ := contains_iff.mp hcut
    have hroot := parent?_detach h.linked n n
    rw [if_pos rfl, parent?_of_node? hnode] at hroot
    simp only [hnode, hroot]
  · rw [if_neg hn, if_neg hn]

/-- In every document that is reached, a live node is replaced by any live node that is not above it. That is
done, and the new node has the place of the old one exactly if it is another one. A node that is to take its
own place is removed, with all that is below it. -/
theorem Reachable.replaced_iff (h : d.Reachable) (hold : d.contains old = true) (hnew : d.contains new = true)
    (hpath : ¬ d.Below old new) :
    (d.replace old new).1 = .ok () ∧ (Replaced d (d.replace old new).2 old new ↔ old ≠ new) ∧
      (old = new → d.replace old new = d.remove old) := by
  have hwell := h.wellFormed
  by_cases hne : old = new
  · subst hne
    obtain ⟨node, hnode⟩ := contains_iff.mp hold
    obtain ⟨t, rfl, ht⟩ := hwell.exists_holds hnode
    obtain ⟨hok, hread⟩ := remove_eq hwell ht
    rw [hwell.replace_self]
    refine ⟨hok, iff_of_false (fun hreplaced => ?_) (fun hne => hne rfl), fun _ => rfl⟩
    have hgone := hreplaced.self hnode
    rw [hread, if_pos t.id_mem_ids] at hgone
    cases hgone
  · obtain ⟨hok, hreplaced⟩ := hwell.replaced hold hnew hne hpath
    exact ⟨hok, iff_of_true hreplaced hne, fun heq => absurd heq hne⟩

/-- A list of which an item is to take the place: the item lies within the list. -/
def listed : Document Unit :=
  match load "<ul><li>kept</li>gone</ul>" with
  | .ok d => d
  | .error _ => empty

/-- The item takes the place of the list. It keeps its text, and the text beside it is gone. -/
theorem Reachable.replaced_iff_listed :
    listed.Reachable ∧ listed.contains ⟨1, 0⟩ = true ∧ listed.contains ⟨2, 0⟩ = true ∧
      ¬ listed.Below ⟨1, 0⟩ ⟨2, 0⟩ ∧ Replaced listed (listed.replace ⟨1, 0⟩ ⟨2, 0⟩).2 ⟨1, 0⟩ ⟨2, 0⟩ ∧
      (listed.replace ⟨1, 0⟩ ⟨2, 0⟩).2.children ⟨0, 0⟩ = [⟨2, 0⟩] ∧
      (listed.replace ⟨1, 0⟩ ⟨2, 0⟩).2.children ⟨2, 0⟩ = [⟨3, 0⟩] ∧
      (listed.replace ⟨1, 0⟩ ⟨2, 0⟩).2.contains ⟨4, 0⟩ = false := by
  have hreached : listed.Reachable := by
    rw [listed]
    split
    · next d hload => exact .load hload
    · exact .empty
  have hold : listed.contains ⟨1, 0⟩ = true := by decide +kernel
  have hnew : listed.contains ⟨2, 0⟩ = true := by decide +kernel
  have hpath : ¬ listed.Below ⟨1, 0⟩ ⟨2, 0⟩ := by
    intro hbelow
    have hparent : listed.parent? ⟨1, 0⟩ = some ⟨0, 0⟩ := by decide +kernel
    have hroot : listed.parent? ⟨0, 0⟩ = none := by decide +kernel
    obtain ⟨p, hp, habove⟩ := TransGen.head'_iff.mp hbelow
    rw [Climbs, hparent] at hp
    cases hp
    exact absurd (eq_of_within_of_parent_none hroot habove) (by decide)
  obtain ⟨_, hreplaced, _⟩ := hreached.replaced_iff hold hnew hpath
  refine ⟨hreached, hold, hnew, hpath, hreplaced.mpr (by decide), ?_, ?_, ?_⟩ <;> decide +kernel

/-- The paragraph is to take its own place. That is done, and yet the paragraph is gone from the body. -/
theorem replace_self_frees_paragraph :
    pruned.Reachable ∧ pruned.contains ⟨1, 0⟩ = true ∧ ¬ pruned.Below ⟨1, 0⟩ ⟨1, 0⟩ ∧
      (pruned.replace ⟨1, 0⟩ ⟨1, 0⟩).1 = .ok () ∧ pruned.parent? ⟨1, 0⟩ = some ⟨0, 0⟩ ∧
      (pruned.replace ⟨1, 0⟩ ⟨1, 0⟩).2.contains ⟨1, 0⟩ = false ∧
      (pruned.replace ⟨1, 0⟩ ⟨1, 0⟩).2.children ⟨0, 0⟩ = [] :=
  ⟨reachable_pruned, by decide, reachable_pruned.wellFormed.linked.acyclic _, by decide, by decide, by decide,
    by decide⟩

end ReactiveTemplate.Document
