import ReactiveTemplate.Document.Load
import ReactiveTemplate.Document.Subtree
import ReactiveTemplate.Proofs.Document.Removal

/-!
# Histories of a document

Whatever is done to a document comes down to three steps: a node is put into a slot, a node is changed, or a
slot is emptied. A history is a course of such steps with the ids that it hands out. The generation of a slot
never falls, and it rises with every node that is put in, so no id is handed out twice, and an id whose node
is gone is never live again. Nothing is assumed of the links between nodes, and generations are counted
without bound.
-/

namespace ReactiveTemplate.Document

variable {L : Type} {d e e' : Document L} {ids more : List NodeId} {n : NodeId}

/-! ### Generations -/

/-- The generation of a slot. -/
def generation? (d : Document L) (index : Nat) : Option Nat :=
  d.slots[index]?.map Slot.generation

/-- An id was handed out at some time: its slot has come to its generation. -/
def Issued (d : Document L) (n : NodeId) : Prop :=
  ∃ generation, d.generation? n.index = some generation ∧ n.generation ≤ generation

/-- A live id was handed out. -/
theorem issued_of_node? {node : Node L} (h : d.node? n = some node) : d.Issued n := by
  refine ⟨n.generation, ?_, Nat.le_refl _⟩
  rw [generation?, node?_eq_some_iff.mp h, Option.map_some]

/-- Nothing was handed out of the void. -/
theorem not_issued_void (n : NodeId) : ¬ (void : Document L).Issued n := by
  intro h
  obtain ⟨generation, hslot, _⟩ := h
  simp [generation?, void] at hslot

/-- Writing a slot of a live node without changing its generation changes no generation. -/
theorem generation?_set {node : Node L} (h : d.node? n = some node) (content : Option (Node L)) (k : Nat) :
    (d.slots.setIfInBounds n.index ⟨n.generation, content⟩)[k]?.map Slot.generation = d.generation? k := by
  rw [Array.getElem?_setIfInBounds, generation?]
  split
  · next hindex =>
    rw [if_pos (index_lt_of_node? h), ← hindex, node?_eq_some_iff.mp h]
    rfl
  · rfl

/-- Changing a node changes no generation. -/
theorem generation?_modify (d : Document L) (n : NodeId) (f : Node L → Node L) (k : Nat) :
    (d.modify n f).generation? k = d.generation? k := by
  rw [modify]
  split
  · next node hnode => exact generation?_set hnode _ k
  · rfl

/-- Emptying a slot changes no generation. -/
theorem generation?_release (d : Document L) (n : NodeId) (k : Nat) :
    (d.release n).generation? k = d.generation? k := by
  rw [release]
  split
  · next node hnode => exact generation?_set hnode _ k
  · rfl

/-- The node that is put in gets the next generation of its slot, and no other slot is concerned. -/
theorem generation?_insert (h : d.FreeList) (data : NodeData) :
    (d.insert data).1.generation = (d.generation? (d.insert data).1.index).elim 0 (· + 1) ∧
      ∀ k, (d.insert data).2.generation? k =
        if k = (d.insert data).1.index then some (d.insert data).1.generation else d.generation? k := by
  rw [insert]
  cases hfree : d.free with
  | nil =>
    refine ⟨by simp [generation?], fun k => ?_⟩
    simp only [generation?, Array.getElem?_push]
    split <;> rfl
  | cons index rest =>
    obtain ⟨generation, hslot⟩ := (h.mem_iff index).mp (by simp [hfree])
    have hindex : index < d.slots.size := (Array.getElem?_eq_some_iff.mp hslot).1
    simp only [hslot, Option.map_some, Option.getD_some]
    refine ⟨by simp [generation?, hslot], fun k => ?_⟩
    simp only [generation?, Array.getElem?_setIfInBounds]
    by_cases hk : k = index
    · simp [hk, hindex]
    · simp [hk, Ne.symm hk]

/-- The id of a node that is put in was not handed out before. -/
theorem not_issued_insert (h : d.FreeList) (data : NodeData) : ¬ d.Issued (d.insert data).1 := by
  intro hissued
  obtain ⟨generation, hreached, hle⟩ := hissued
  rw [(generation?_insert h data).1, hreached] at hle
  exact Nat.not_succ_le_self generation hle

/-- When a node is put in, its id is handed out and no other. -/
theorem issued_insert (h : d.FreeList) (data : NodeData) (n : NodeId) :
    (d.insert data).2.Issued n ↔ d.Issued n ∨ n = (d.insert data).1 := by
  obtain ⟨hnext, hread⟩ := generation?_insert h data
  rw [Issued, hread]
  by_cases hindex : n.index = (d.insert data).1.index
  · rw [if_pos hindex, Issued, hindex]
    have heq : n = (d.insert data).1 ↔ n.generation = (d.insert data).1.generation := by
      refine ⟨congrArg NodeId.generation, fun hgeneration => ?_⟩
      change (⟨n.index, n.generation⟩ : NodeId) = ⟨(d.insert data).1.index, (d.insert data).1.generation⟩
      rw [hindex, hgeneration]
    rw [heq, hnext]
    cases d.generation? (d.insert data).1.index with
    | none => simp
    | some generation => simp; omega
  · have hne : n ≠ (d.insert data).1 := fun heq => hindex (congrArg NodeId.index heq)
    simp [if_neg hindex, hne, Issued]

/-! ### Histories -/

/-- A document came of another by putting in, changing and taking out nodes, and these ids were handed out on
the way, in order. -/
inductive Evolves (d : Document L) : List NodeId → Document L → Prop
  | refl : Evolves d [] d
  | insert {ids : List NodeId} {e : Document L} (h : Evolves d ids e) (data : NodeData) :
      Evolves d (ids ++ [(e.insert data).1]) (e.insert data).2
  | modify {ids : List NodeId} {e : Document L} (h : Evolves d ids e) (n : NodeId) (f : Node L → Node L) :
      Evolves d ids (e.modify n f)
  | release {ids : List NodeId} {e : Document L} (h : Evolves d ids e) (n : NodeId) :
      Evolves d ids (e.release n)

namespace Evolves

/-- One history after another. -/
theorem trans (h : d.Evolves ids e) (h' : e.Evolves more e') : d.Evolves (ids ++ more) e' := by
  induction h' with
  | refl => rwa [List.append_nil]
  | insert _ data ih =>
    rw [← List.append_assoc]
    exact ih.insert data
  | modify _ n f ih => exact ih.modify n f
  | release _ n ih => exact ih.release n

/-- The free list stays exact. -/
theorem freeList (h : d.Evolves ids e) (hd : d.FreeList) : e.FreeList := by
  induction h with
  | refl => exact hd
  | insert _ data ih => exact ih.insert data
  | modify _ n f ih => exact ih.modify n f
  | release _ n ih => exact ih.release n

/-- The ids of a history are those that were handed out at its end and not at its start, each one once. -/
theorem accounts (h : d.Evolves ids e) (hd : d.FreeList) :
    ids.Nodup ∧ (∀ n ∈ ids, ¬ d.Issued n) ∧ ∀ n, e.Issued n ↔ d.Issued n ∨ n ∈ ids := by
  induction h with
  | refl => simp
  | @insert ids e h data ih =>
    obtain ⟨hnodup, hfresh, hissued⟩ := ih
    have hnew := not_issued_insert (h.freeList hd) data
    rw [hissued, not_or] at hnew
    refine ⟨List.nodup_append.mpr ⟨hnodup, List.nodup_singleton _, ?_⟩, ?_, fun n => ?_⟩
    · intro a ha b hb heq
      rw [List.mem_singleton] at hb
      exact hnew.2 (hb ▸ heq ▸ ha)
    · intro n hn
      rcases List.mem_append.mp hn with hold | hlast
      · exact hfresh n hold
      · rw [List.mem_singleton.mp hlast]
        exact hnew.1
    · rw [issued_insert (h.freeList hd), hissued, List.mem_append, List.mem_singleton, or_assoc]
  | modify _ n f ih => simpa only [Issued, generation?_modify] using ih
  | release _ n ih => simpa only [Issued, generation?_release] using ih

/-- In a history that began with nothing every live id was handed out. -/
theorem mem_of_contains (h : void.Evolves ids e) (hn : e.contains n = true) : n ∈ ids := by
  obtain ⟨node, hnode⟩ := contains_iff.mp hn
  have hissued := ((h.accounts wellFormed_void.freeList).2.2 n).mp (issued_of_node? hnode)
  exact hissued.resolve_left (not_issued_void n)

/-- Two histories of one document hand out the same ids. -/
theorem perm (h : void.Evolves ids e) (h' : void.Evolves more e) : ids.Perm more := by
  obtain ⟨hnodup, _, hissued⟩ := h.accounts wellFormed_void.freeList
  obtain ⟨hnodup', _, hissued'⟩ := h'.accounts wellFormed_void.freeList
  refine (List.perm_ext_iff_of_nodup hnodup hnodup').mpr fun n => ?_
  have hfirst := hissued n
  have hsecond := hissued' n
  simp only [not_issued_void, false_or] at hfirst hsecond
  rw [← hfirst, hsecond]

/-- An id that was handed out and is not live stays so. -/
theorem node?_eq_none (h : d.Evolves ids e) (hd : d.FreeList) (hissued : d.Issued n) (hgone : d.node? n = none) :
    e.node? n = none := by
  induction h with
  | refl => exact hgone
  | @insert ids e h data ih =>
    rw [(node?_insert (h.freeList hd) data).2, if_neg, ih]
    intro heq
    have hnew := not_issued_insert (h.freeList hd) data
    rw [← heq, (h.accounts hd).2.2] at hnew
    exact hnew (Or.inl hissued)
  | modify _ m f ih =>
    rw [node?_modify]
    split
    · next heq => rw [← heq, ih, Option.map_none]
    · exact ih
  | release _ m ih => rw [node?_release, ih, ite_self]

/-! ### Operations -/

/-- Changing and emptying slots belongs to a history. -/
theorem stable (d : Document L) (ids : List NodeId) : Stable fun e => d.Evolves ids e where
  relinked h n _ _ := h.modify n _
  release h n := h.release n

/-- An element is changed. -/
theorem onElement (h : d.Evolves ids e) (n : NodeId) (f : Node L → Element → Node L) :
    d.Evolves ids (e.onElement n f).2 := by
  rw [Document.onElement]
  split
  · exact h
  · split
    · exact h.modify _ _
    · exact h

/-- A node is appended. -/
theorem append (h : d.Evolves ids e) (parent child : NodeId) : d.Evolves ids (e.append parent child).2 :=
  (stable d ids).append h parent child

/-- A node is removed. -/
theorem remove (h : d.Evolves ids e) (n : NodeId) : d.Evolves ids (e.remove n).2 :=
  (stable d ids).remove h n

/-- A node is replaced. -/
theorem replace (h : d.Evolves ids e) (old new : NodeId) : d.Evolves ids (e.replace old new).2 :=
  (stable d ids).replace h old new

end Evolves

/-- A document came of another in the course of some history. -/
def Precedes (d e : Document L) : Prop :=
  ∃ ids, d.Evolves ids e

namespace Precedes

/-- Nothing was done. -/
theorem refl (d : Document L) : d.Precedes d :=
  ⟨[], .refl⟩

/-- One history after another. -/
theorem trans (h : d.Precedes e) (h' : e.Precedes e') : d.Precedes e' := by
  obtain ⟨ids, hids⟩ := h
  obtain ⟨more, hmore⟩ := h'
  exact ⟨ids ++ more, hids.trans hmore⟩

/-- A node is put in. -/
theorem insert (h : d.Precedes e) (data : NodeData) : d.Precedes (e.insert data).2 := by
  obtain ⟨ids, hids⟩ := h
  exact ⟨_, hids.insert data⟩

/-- An element is changed. -/
theorem onElement (h : d.Precedes e) (n : NodeId) (f : Node L → Element → Node L) :
    d.Precedes (e.onElement n f).2 :=
  h.imp fun _ hids => hids.onElement n f

/-- A node is appended. -/
theorem append (h : d.Precedes e) (parent child : NodeId) : d.Precedes (e.append parent child).2 :=
  h.imp fun _ hids => hids.append parent child

/-- A node is removed. -/
theorem remove (h : d.Precedes e) (n : NodeId) : d.Precedes (e.remove n).2 :=
  h.imp fun _ hids => hids.remove n

/-- A node is replaced. -/
theorem replace (h : d.Precedes e) (old new : NodeId) : d.Precedes (e.replace old new).2 :=
  h.imp fun _ hids => hids.replace old new

mutual

/-- A piece of markup is put in. -/
theorem build {e : Document L} (h : d.Precedes e) (piece : Markup) : d.Precedes (e.build piece).2 := by
  cases piece with
  | text content => exact h.insert _
  | element tag attributes pieces => exact (h.insert _).buildInto _ pieces

/-- Pieces of markup are put into an element. -/
theorem buildInto {e : Document L} (h : d.Precedes e) (parent : NodeId) (pieces : List Markup) :
    d.Precedes (e.buildInto parent pieces) := by
  cases pieces with
  | nil => exact h
  | cons piece rest => exact ((h.build piece).append _ _).buildInto parent rest

end

end Precedes

/-- The document without markup has a history. -/
theorem precedes_empty : (void : Document L).Precedes empty :=
  (Precedes.refl void).insert (.element (.ofTag "body"))

/-- A document that was read from markup has a history. -/
theorem precedes_of_load {source : String} (h : load source = .ok d) : void.Precedes d := by
  rw [load] at h
  cases hread : Markup.read source with
  | error e =>
    rw [hread] at h
    contradiction
  | ok pieces =>
    rw [hread] at h
    cases h
    exact precedes_empty.buildInto _ pieces

/-! ### Freed nodes -/

/-- What is freed is not live: the node of a slot that is emptied, the nodes of a tree that is freed, a node that
is removed and one that is replaced, and the nodes below these if the links are in order. -/
structure Frees (d : Document L) : Prop where
  release : ∀ n, (d.release n).contains n = false
  freeTree : ∀ n, ∀ m ∈ d.postorder n, (d.freeTree n).contains m = false
  remove : ∀ n, (d.remove n).2.contains n = false
  replace : ∀ old new, (d.replace old new).1 = .ok () → (d.replace old new).2.contains old = false
  remove_below : d.WellFormed → ∀ n, d.contains n = true → ∀ m, d.Within m n →
    (d.remove n).2.contains m = false
  replace_below : d.WellFormed → ∀ old new, d.contains old = true → d.contains new = true → old ≠ new →
    ¬ d.Below old new → ∀ m, (d.detach new).Within m old → (d.replace old new).2.contains m = false

/-- A released id is not live. -/
theorem contains_release (d : Document L) (n : NodeId) : (d.release n).contains n = false := by
  rw [contains, node?_release, if_pos rfl]
  rfl

/-- The ids of a tree that is freed are not live. -/
theorem contains_freeTree (d : Document L) {n m : NodeId} (h : m ∈ d.postorder n) :
    (d.freeTree n).contains m = false := by
  rw [contains, freeTree, node?_foldl_release, if_pos h]
  rfl

/-- A tree that is freed is freed with its uppermost node. -/
theorem contains_freeTree_self (d : Document L) (n : NodeId) : (d.freeTree n).contains n = false := by
  cases hn : d.node? n with
  | none =>
    rw [freeTree_of_node?_eq_none hn, contains, hn]
    rfl
  | some node =>
    refine contains_freeTree d ?_
    obtain ⟨size, hsize⟩ := Nat.exists_eq_succ_of_ne_zero (Nat.ne_zero_of_lt (index_lt_of_node? hn))
    rw [postorder, hsize, postorderWithin]
    exact List.mem_append_right _ (List.mem_singleton_self n)

/-- In every document freed nodes are not live. -/
theorem frees (d : Document L) : d.Frees where
  release := d.contains_release
  freeTree _ _ := d.contains_freeTree
  remove n := by
    rw [Document.remove]
    split
    · exact contains_freeTree_self _ n
    · next h => exact Bool.eq_false_iff.mpr h
  replace old new h := by
    rw [replace_steps] at h ⊢
    by_cases hnew : d.contains new = true
    · rw [if_pos hnew] at h ⊢
      cases hnode : (d.detach new).node? old with
      | none => simp only [hnode, reduceCtorEq] at h
      | some node =>
        cases hparent : node.parent with
        | none =>
          simp only [hparent]
          exact contains_freeTree_self _ old
        | some p =>
          simp only [hnode, hparent] at h ⊢
          split at h
          · next hmem =>
            rw [if_pos hmem]
            dsimp only
            exact contains_freeTree_self _ old
          · cases h
    · rw [if_neg hnew] at h
      cases h
  remove_below h n hn m hm := by
    obtain ⟨node, hnode⟩ := contains_iff.mp hn
    obtain ⟨t, rfl, ht⟩ := h.exists_holds hnode
    rw [contains, (remove_eq h ht).2, if_pos ((ht.mem_ids_iff h.linked m).mpr hm)]
    rfl
  replace_below h old new hold hnew hne hpath m hm := by
    have hcut := h.detach new
    rw [← contains_detach h.linked new] at hold
    obtain ⟨node, hnode⟩ := contains_iff.mp hold
    obtain ⟨t, hid, ht⟩ := hcut.exists_holds hnode
    have hmem : m ∈ t.ids := (ht.mem_ids_iff hcut.linked m).mpr (hid ▸ hm)
    rw [contains, (replace_eq h hne hnew hpath ht hid).2, if_pos hmem]
    rfl

/-! ### Ids without a node -/

/-- An operation on the element of an id without a node is refused and changes nothing. -/
theorem onElement_of_node?_eq_none (h : d.node? n = none) (f : Node L → Element → Node L) :
    d.onElement n f = (.error (.staleNode n), d) := by
  rw [onElement, h]

/-- No question about an id finds a node, and every operation on it is refused and changes nothing. Its tag,
attributes, classes and styles are those of its element. -/
structure Missing (d : Document L) (n : NodeId) : Prop where
  contains : d.contains n = false
  parent? : d.parent? n = none
  children : d.children n = []
  element? : d.element? n = none
  text? : d.text? n = none
  listenersAt : ∀ event, d.listenersAt n event = []
  snapshot? : d.snapshot? n = none
  setAttribute : ∀ name value, d.setAttribute n name value = (.error (.staleNode n), d)
  removeAttribute : ∀ name, d.removeAttribute n name = (.error (.staleNode n), d)
  addClass : ∀ name, d.addClass n name = (.error (.staleNode n), d)
  setStyle : ∀ property value, d.setStyle n property value = (.error (.staleNode n), d)
  addListener : ∀ event listener, d.addListener n event listener = (.error (.staleNode n), d)
  append : ∀ child, d.append n child = (.error (.staleNode n), d)
  remove : d.remove n = (.error (.staleNode n), d)

/-- An id without a node is missing in every respect. -/
theorem missing_of_node? (h : d.node? n = none) : d.Missing n where
  contains := by rw [contains, h]; rfl
  parent? := by rw [parent?, h]; rfl
  children := by rw [children, h]
  element? := by rw [element?, h]; rfl
  text? := by rw [text?, h]; rfl
  listenersAt event := by rw [listenersAt, h]
  snapshot? := by rw [snapshot?, subtree?_eq_none h]; rfl
  setAttribute _ _ := onElement_of_node?_eq_none h _
  removeAttribute _ := onElement_of_node?_eq_none h _
  addClass _ := onElement_of_node?_eq_none h _
  setStyle _ _ := onElement_of_node?_eq_none h _
  addListener _ _ := onElement_of_node?_eq_none h _
  append child := by rw [append, h]
  remove := by
    rw [remove, if_neg]
    rw [contains, h]
    exact Bool.false_ne_true

end ReactiveTemplate.Document
