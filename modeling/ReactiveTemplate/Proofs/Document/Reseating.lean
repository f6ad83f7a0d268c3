import ReactiveTemplate.Proofs.Document.Counting
import ReactiveTemplate.Proofs.Document.Growth

/-!
# Trees at one place

`Reseated d d' old new` says that the tree at `new` stands in the second document where the tree at `old`
stood in the first, and that nothing around them is different. Swapping a tree in does that, and it adds up
over any number of swaps. From it follow where the new tree is, and how many nodes there are.
-/

namespace ReactiveTemplate.Document

open Relation

variable {L : Type} {d d' d'' : Document L} {old mid new : NodeId}

/-! ### Replacing in a list -/

section Replace

variable {α : Type} [DecidableEq α]

/-- Replacing something by itself. -/
theorem replace_same (a : α) (l : List α) : l.replace a a = l := by
  induction l with
  | nil => rfl
  | cons x rest ih =>
    rw [List.replace_cons]
    split
    · next heq => rw [eq_of_beq heq]
    · rw [ih]

/-- Replacing what was put in by a replacement. -/
theorem replace_replace {a b : α} (c : α) {l : List α} (h : b ∈ l → b = a) :
    (l.replace a b).replace b c = l.replace a c := by
  induction l with
  | nil => rfl
  | cons x rest ih =>
    by_cases hxa : x = a
    · rw [hxa, List.replace_cons_self, List.replace_cons_self, List.replace_cons_self]
    · have hxb : x ≠ b := fun heq => hxa (heq.trans (h (heq ▸ List.mem_cons_self)))
      have hrest := ih fun hmem => h (List.mem_cons_of_mem _ hmem)
      simp only [List.replace_cons, beq_false_of_ne (Ne.symm hxa), beq_false_of_ne (Ne.symm hxb), hrest]

/-- What is put in by a replacement has the place of what it replaces. -/
theorem getElem?_replace_of_nodup {a b : α} {l : List α} (hnodup : l.Nodup) {i : Nat} (h : l[i]? = some a) :
    (l.replace a b)[i]? = some b := by
  have hfirst : a ∉ l.take i := by
    intro hmem
    obtain ⟨j, hj, heq⟩ := List.mem_take_iff_getElem.mp hmem
    have hlt : j < l.length := by omega
    have hat : l[j]? = l[i]? := by rw [List.getElem?_eq_getElem hlt, heq, h]
    have hsame := (List.getElem?_inj hlt hnodup).mp hat
    omega
  rw [List.getElem?_replace, h, if_pos (beq_self_eq_true _), if_neg hfirst]

end Replace

/-- What lies below a node is a matter of the nodes. -/
theorem within_congr (hsame : ∀ n, d'.node? n = d.node? n) {n a : NodeId} : d'.Within n a ↔ d.Within n a := by
  have hclimbs : d'.Climbs = d.Climbs := by
    funext m p
    rw [Climbs, Climbs, parent?, parent?, hsame]
  rw [Within, Within, hclimbs]

/-- In both documents the same nodes are live, with the same data, listeners, parents and children. -/
structure Unaltered (d d' : Document L) : Prop where
  body : d'.body = d.body
  nodes : ∀ n, d'.node? n = d.node? n
  attached : ∀ n, d'.isAttached n = d.isAttached n
  nodeCount : d'.nodeCount = d.nodeCount

/-- The nodes tell which of them are attached, and how many there are. -/
theorem WellFormed.unaltered (h : d.WellFormed) (h' : d'.WellFormed)
    (hbody : d'.body = d.body) (hnodes : ∀ n, d'.node? n = d.node? n) : d.Unaltered d' where
  body := hbody
  nodes := hnodes
  attached n := by
    rw [Bool.eq_iff_iff, h.linked.isAttached_iff, h'.linked.isAttached_iff, hbody, within_congr hnodes]
  nodeCount := by
    rw [nodeCount_eq_length d.nodup_liveIds fun n => ?_, length_liveIds]
    rw [mem_liveIds, contains, contains, hnodes]

/-- In the second document the tree at `new` stands where the tree at `old` stood in the first. Around them
nothing is different but that the parent lists the one instead of the other. -/
structure Reseated (d d' : Document L) (old new : NodeId) : Prop where
  wellFormed : d'.WellFormed
  body : d'.body = d.body
  live : ∃ node, d'.node? new = some node
  parent : d'.parent? new = d.parent? old
  outside : ∀ {n node}, d.node? n = some node → ¬ d.Within n old →
    d'.node? n = some { node with children := node.children.replace old new } ∧ ¬ d'.Within n new
  inside : ∀ {n node}, d'.node? n = some node → ¬ d'.Within n new →
    (∃ before, d.node? n = some before) ∧ ¬ d.Within n old

namespace Reseated

/-- A tree stands where it stands. -/
theorem refl (h : d.WellFormed) (hold : ∃ node, d.node? old = some node) : Reseated d d old old where
  wellFormed := h
  body := rfl
  live := hold
  parent := rfl
  outside {n node} hn hout := ⟨by rw [replace_same, hn], hout⟩
  inside hn hout := ⟨⟨_, hn⟩, hout⟩

/-- What stands where is a matter of the nodes. -/
theorem congr (h : Reseated d d' old new) (hwell : d''.WellFormed) (hbody : d''.body = d'.body)
    (hsame : ∀ n, d''.node? n = d'.node? n) : Reseated d d'' old new := by
  have hparent (n : NodeId) : d''.parent? n = d'.parent? n := by rw [parent?, parent?, hsame]
  have hwithin (n : NodeId) : d''.Within n new ↔ d'.Within n new := within_congr hsame
  refine ⟨hwell, hbody.trans h.body, ?_, (hparent new).trans h.parent, fun {n node} hn hout => ?_,
    fun {n node} hn hout => ?_⟩
  · rw [hsame]
    exact h.live
  · rw [hsame, hwithin]
    exact h.outside hn hout
  · rw [hsame] at hn
    rw [hwithin] at hout
    exact h.inside hn hout

/-- A tree in the place of one in the place of another. -/
theorem trans (hd : d.Linked) (h : Reseated d d' old mid) (h' : Reseated d' d'' mid new) :
    Reseated d d'' old new where
  wellFormed := h'.wellFormed
  body := h'.body.trans h.body
  live := h'.live
  parent := h'.parent.trans h.parent
  outside {n node} hn hout := by
    obtain ⟨hafter, hbeside⟩ := h.outside hn hout
    obtain ⟨hend, hclear⟩ := h'.outside hafter hbeside
    refine ⟨?_, hclear⟩
    rw [hend, replace_replace]
    -- Nothing outside lists the tree that came between, unless that is the old one.
    intro hmem
    refine Classical.byContradiction fun hne => ?_
    have hparent : d.parent? mid = some n := hd.parent_of_mem (by rwa [children_of_node? hn])
    have hmid : ¬ d.Within mid old := by
      intro hwithin
      rcases ReflTransGen.cases_head hwithin with heq | ⟨p, hp, habove⟩
      · exact hne heq
      · exact hout (Option.some.inj (hparent.symm.trans hp) ▸ habove)
    obtain ⟨live, hlive⟩ := node?_of_parent hparent
    exact (h.outside hlive hmid).2 .refl
  inside hn hout := by
    obtain ⟨⟨between, hbetween⟩, hbeside⟩ := h'.inside hn hout
    exact h.inside hbetween hbeside

/-- What is above a node outside lies above it as before. -/
theorem within (h : Reseated d d' old new) {n a : NodeId} (hout : ¬ d.Within n old) (hwithin : d.Within n a) :
    d'.Within n a := by
  induction hwithin using ReflTransGen.head_induction_on with
  | refl => exact .refl
  | @head n p hp _ ih =>
    have hparent : d.parent? n = some p := hp
    obtain ⟨node, hnode⟩ := node?_of_parent hparent
    have hkept : d'.parent? n = some p := by
      rw [parent?_of_node? (h.outside hnode hout).1, ← parent?_of_node? hnode, hparent]
    exact .head hkept (ih fun habove => hout (.head hp habove))

/-- A tree in the place of one that was attached, but was not the body, is attached. -/
theorem isAttached (hd : d.Linked) (h : Reseated d d' old new) (hne : old ≠ d.body)
    (hattached : d.isAttached old = true) : d'.isAttached new = true := by
  rw [hd.isAttached_iff] at hattached
  rw [h.wellFormed.linked.isAttached_iff, h.body]
  rcases ReflTransGen.cases_head hattached with heq | ⟨p, hp, habove⟩
  · exact absurd heq hne
  · have hout : ¬ d.Within p old := fun hwithin => hd.acyclic old (.head' hp hwithin)
    exact .head (h.parent.trans hp) (h.within hout habove)

/-- The new tree has the place of the old one among the children of its parent. -/
theorem getElem?_children (hd : d.Linked) (h : Reseated d d' old new) {p : NodeId} {i : Nat}
    (hparent : d.parent? old = some p) (hplace : (d.children p)[i]? = some old) :
    (d'.children p)[i]? = some new := by
  obtain ⟨node, hnode⟩ := hd.node?_of_parent hparent
  have hout : ¬ d.Within p old := fun hwithin => hd.acyclic old (.head' hparent hwithin)
  rw [children_of_node? (h.outside hnode hout).1]
  rw [children_of_node? hnode] at hplace
  have hnodup := hd.nodup p
  rw [children_of_node? hnode] at hnodup
  exact getElem?_replace_of_nodup hnodup hplace

/-- The same nodes are outside, and with those of the new tree they are all that are live. -/
theorem nodeCount (h : Reseated d d' old new) {t : Subtree} (ht : d'.Holds t) (hid : t.id = new)
    {ns : List NodeId} (hnodup : ns.Nodup)
    (hns : ∀ n, n ∈ ns ↔ (∃ node, d.node? n = some node) ∧ ¬ d.Within n old) :
    d'.nodeCount = ns.length + t.ids.length := by
  have hids (n : NodeId) : n ∈ t.ids ↔ d'.Within n new := hid ▸ ht.mem_ids_iff h.wellFormed.linked n
  have hall : (ns ++ t.ids).Nodup := by
    refine List.nodup_append.mpr ⟨hnodup, ht.nodup_ids h.wellFormed.linked, fun n hn m hm heq => ?_⟩
    obtain ⟨⟨node, hnode⟩, hout⟩ := (hns n).mp hn
    exact (h.outside hnode hout).2 ((hids n).mp (heq ▸ hm))
  rw [nodeCount_eq_length hall fun n => ?_, List.length_append]
  rw [List.mem_append, hns, contains_iff, hids]
  constructor
  · intro hn
    rcases hn with ⟨⟨node, hnode⟩, hout⟩ | hwithin
    · exact ⟨_, (h.outside hnode hout).1⟩
    · exact ht.live n ((hids n).mpr hwithin)
  · intro hn
    obtain ⟨node, hnode⟩ := hn
    by_cases hwithin : d'.Within n new
    · exact Or.inr hwithin
    · exact Or.inl (h.inside hnode hwithin)

end Reseated

/-- A tree beside a document that takes the place of another one stands where that one stood. -/
theorem Grown.reseated {d₁ : Document L} {t u : Subtree} (h : Grown d d₁ [u]) (hd : d.WellFormed)
    (hbody : d₁.body = d.body) (ht : d.Holds t) : Reseated d (d₁.replace t.id u.id).2 t.id u.id := by
  obtain ⟨_, hwell, hread⟩ := h.node?_replace ht
  obtain ⟨_, _, hu, _⟩ := h.swap hd ht
  have hids (n : NodeId) : n ∈ t.ids ↔ d.Within n t.id := ht.mem_ids_iff hd.linked n
  have hnew {n : NodeId} {node : Node L} (hn : d.node? n = some node) : n ∉ u.ids := by
    intro hmem
    exact h.not_mem_ids hn (Subtree.mem_idsList.mpr ⟨u, List.mem_singleton_self u, hmem⟩)
  refine ⟨hwell, (body_replace _ _ _).trans hbody, hu.node?, ?_, fun {n node} hn hout => ?_,
    fun {n node} hn hout => ?_⟩
  · obtain ⟨node, hnode⟩ := (h.holds u (List.mem_singleton_self u)).node?
    have hfresh : u.id ∉ t.ids := by
      intro hmem
      obtain ⟨live, hlive⟩ := ht.live _ hmem
      exact hnew hlive u.id_mem_ids
    rw [parent?, hread, if_neg hfresh, hnode, Option.map_some, Option.bind_some, exchanged, if_pos rfl]
  · have hne : n ≠ u.id := fun heq => hnew hn (heq ▸ u.id_mem_ids)
    refine ⟨?_, fun hwithin => hnew hn ((hu.mem_ids_iff hwell.linked n).mpr hwithin)⟩
    rw [hread, if_neg (fun hmem => hout ((hids n).mp hmem)), h.kept hn, Option.map_some, exchanged,
      if_neg hne]
  · have hgone : n ∉ t.ids := by
      intro hmem
      rw [hread, if_pos hmem] at hn
      cases hn
    rw [hread, if_neg hgone, Option.map_eq_some_iff] at hn
    obtain ⟨between, hbetween, _⟩ := hn
    rcases h.new hbetween with hbefore | hmem
    · exact ⟨⟨_, hbefore⟩, fun hwithin => hgone ((hids n).mpr hwithin)⟩
    · obtain ⟨t', ht', hmem⟩ := Subtree.mem_idsList.mp hmem
      rw [List.mem_singleton.mp ht'] at hmem
      exact absurd ((hu.mem_ids_iff hwell.linked n).mp hmem) hout

/-! ### Keeping a place -/

/-- The node `root` of the second document keeps the place that `mount` had in the first: the place itself,
all that lies around it, and the number of nodes. -/
structure InPlace (d d' : Document L) (mount root : NodeId) : Prop where
  body : d'.body = d.body
  live : d'.contains root = true
  attached : d'.isAttached root = true
  place : ∃ (parent : NodeId) (index : Nat),
    d.parent? mount = some parent ∧ (d.children parent)[index]? = some mount ∧
      d'.parent? root = some parent ∧ (d'.children parent)[index]? = some root
  outside : ∀ {n node}, d.node? n = some node → ¬ d.Within n mount →
    d'.node? n = some { node with children := node.children.replace mount root } ∧ ¬ d'.Within n root
  inside : ∀ {n}, d'.contains n = true → ¬ d'.Within n root → d.contains n = true ∧ ¬ d.Within n mount
  count : ∃ (around : List NodeId) (tree : Subtree),
    around.Nodup ∧ (∀ n, n ∈ around ↔ d.contains n = true ∧ ¬ d.Within n mount) ∧
      d'.subtree? root = some tree ∧ d'.nodeCount = around.length + tree.ids.length

open Classical in
/-- A tree in the place of one that was attached, but was not the body, keeps its place. -/
theorem Reseated.inPlace (hd : d.Linked) (h : Reseated d d' old new) (hne : old ≠ d.body)
    (hattached : d.isAttached old = true) : InPlace d d' old new where
  body := h.body
  live := contains_iff.mpr h.live
  attached := h.isAttached hd hne hattached
  place := by
    rcases ReflTransGen.cases_head (hd.isAttached_iff.mp hattached) with heq | ⟨p, hp, _⟩
    · exact absurd heq hne
    · obtain ⟨i, hi⟩ := List.mem_iff_getElem?.mp (hd.mem_of_parent hp)
      exact ⟨p, i, hp, hi, h.parent.trans hp, h.getElem?_children hd hp hi⟩
  outside := h.outside
  inside hn hout := by
    obtain ⟨node, hnode⟩ := contains_iff.mp hn
    rw [contains_iff]
    exact h.inside hnode hout
  count := by
    obtain ⟨node, hnode⟩ := h.live
    obtain ⟨t, hid, ht⟩ := h.wellFormed.exists_holds hnode
    have haround (n : NodeId) : n ∈ d.liveIds.filter (fun n => ¬ d.Within n old) ↔
        d.contains n = true ∧ ¬ d.Within n old := by
      rw [List.mem_filter, mem_liveIds, decide_eq_true_eq]
    have hnodup := d.nodup_liveIds.filter (fun n => ¬ d.Within n old)
    refine ⟨_, t, hnodup, haround, hid ▸ ht.subtree? h.wellFormed.linked, ?_⟩
    exact h.nodeCount ht hid hnodup fun n => by rw [haround, contains_iff]

end ReactiveTemplate.Document
