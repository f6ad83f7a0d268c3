import ReactiveTemplate.Proofs.Document.Counting
import ReactiveTemplate.Proofs.Document.Histories
import ReactiveTemplate.Proofs.Document.Reachable

/-!
# What removing a node frees

Removing a node frees it and all its descendants, and takes it out of its parent; no other node is concerned.
The slots that were freed are the next ones to be filled, the last freed first, and each of them gets another
node only when the one that it got before is gone.
-/

namespace ReactiveTemplate.Document

variable {L : Type} {d e : Document L} {n : NodeId}

/-! ### The free list -/

/-- The slot of a released node is the first free one. -/
theorem free_release {node : Node L} (hn : d.node? n = some node) : (d.release n).free = n.index :: d.free := by
  rw [release, hn]

/-- Released nodes have their slots ahead in the free list, the last one first. -/
theorem free_foldl_release {ns : List NodeId} (hnodup : ns.Nodup) (hlive : ∀ n ∈ ns, ∃ node, d.node? n = some node) :
    (ns.foldl release d).free = (ns.map NodeId.index).reverse ++ d.free := by
  induction ns generalizing d with
  | nil => rfl
  | cons n ns ih =>
    obtain ⟨hout, hrest⟩ := List.nodup_cons.mp hnodup
    obtain ⟨node, hn⟩ := hlive n List.mem_cons_self
    have hkept : ∀ m ∈ ns, ∃ node, (d.release n).node? m = some node := by
      intro m hm
      have hmn : m ≠ n := fun heq => hout (heq ▸ hm)
      rw [node?_release, if_neg hmn]
      exact hlive m (List.mem_cons_of_mem n hm)
    rw [List.foldl_cons, ih hrest hkept, free_release hn]
    simp

@[simp]
theorem free_detach (d : Document L) (n : NodeId) : (d.detach n).free = d.free := by
  rw [detach]
  split <;> simp

/-- Removing a node changes no generation. -/
theorem generation?_remove (d : Document L) (n : NodeId) (k : Nat) :
    (d.remove n).2.generation? k = d.generation? k := by
  have hstable : Stable fun e : Document L => e.generation? k = d.generation? k :=
    ⟨fun h m _ _ => (generation?_modify _ m _ k).trans h, fun h m => (generation?_release _ m k).trans h⟩
  exact hstable.remove rfl n

/-! ### Filling slots -/

/-- New nodes, one after another. -/
def insertAll (d : Document L) : List NodeData → List NodeId × Document L
  | [] => ([], d)
  | data :: rest => ((d.insert data).1 :: (insertAll (d.insert data).2 rest).1, (insertAll (d.insert data).2 rest).2)

/-- The node that is put in gets the first free slot, and the next generation of it. -/
theorem insert_of_free {index : Nat} {rest : List Nat} (hfree : d.free = index :: rest) (data : NodeData) :
    (d.insert data).1.index = index ∧ (d.insert data).2.free = rest := by
  rw [insert, hfree]
  exact ⟨rfl, rfl⟩

/-- New nodes get the slots from the front of the free list in order, as far as there are enough of them. -/
theorem insertAll_of_free (hd : d.FreeList) {indexes rest : List Nat} (hfree : d.free = indexes ++ rest)
    {data : List NodeData} (hlength : data.length = indexes.length) :
    (d.insertAll data).1 = indexes.map (fun index => ⟨index, (d.generation? index).elim 0 (· + 1)⟩) ∧
      (d.insertAll data).2.free = rest := by
  induction indexes generalizing d data with
  | nil =>
    rw [List.length_eq_zero_iff.mp hlength]
    exact ⟨rfl, hfree⟩
  | cons index indexes ih =>
    obtain ⟨first, more, rfl⟩ := List.exists_cons_of_length_eq_add_one hlength
    obtain ⟨hindex, hleft⟩ := insert_of_free hfree first
    obtain ⟨hgeneration, hothers⟩ := generation?_insert hd first
    rw [hindex] at hgeneration hothers
    obtain ⟨hids, hend⟩ := ih (hd.insert first) hleft (Nat.succ.inj hlength)
    refine ⟨?_, hend⟩
    have hout : index ∉ indexes := by
      have hnodup := hd.nodup
      rw [hfree] at hnodup
      exact fun hmem => (List.nodup_cons.mp hnodup).1 (List.mem_append_left rest hmem)
    rw [insertAll, hids, List.map_cons, ← hgeneration, ← hindex]
    refine congrArg (_ :: ·) (List.map_congr_left fun other hother => ?_)
    have hne : other ≠ (d.insert first).1.index := by
      intro heq
      rw [heq, hindex] at hother
      exact hout hother
    rw [hothers, if_neg (hindex ▸ hne)]

/-- The slot of a new node holds no other one. -/
theorem contains_of_index_insert (hd : d.FreeList) {data : NodeData} (hindex : (d.insert data).1.index = n.index) :
    d.contains n = false := by
  refine Bool.eq_false_iff.mpr fun hn => ?_
  obtain ⟨node, hnode⟩ := contains_iff.mp hn
  obtain ⟨hfresh, hread⟩ := node?_insert hd data
  have hne : n ≠ (d.insert data).1 := by
    intro heq
    rw [heq, hfresh] at hnode
    cases hnode
  -- Both the node and the new one would be live in the one slot.
  refine hne (eq_of_index_eq (d := (d.insert data).2) (x := node) (y := bare data) ?_ ?_ hindex.symm)
  · rw [hread, if_neg hne, hnode]
  · rw [hread, if_pos rfl]

/-! ### Removing -/

/-- What is left of a document when a node was removed and some ids were freed, in order. -/
structure Removed (d d' : Document L) (n : NodeId) (freed : List NodeId) : Prop where
  /-- What is freed is the node with its descendants, each of them once. -/
  nodup : freed.Nodup
  mem_freed : ∀ m, m ∈ freed ↔ d.Within m n
  live : ∀ m, d'.contains m = true ↔ d.contains m = true ∧ m ∉ freed
  nodeCount : d.nodeCount = d'.nodeCount + freed.length
  /-- The parent of the node has the other children in the same order. -/
  place : ∀ {p node}, d.node? p = some node → d.parent? n = some p →
    ∃ front back, node.children = front ++ n :: back ∧ d'.node? p = some { node with children := front ++ back }
  others : ∀ {m}, m ∉ freed → d.parent? n ≠ some m → d'.node? m = d.node? m
  body : d'.body = d.body
  free : d'.free = (freed.map NodeId.index).reverse ++ d.free

/-- Removing the uppermost node of a tree frees the ids of the tree. -/
theorem WellFormed.removed (h : d.WellFormed) {t : Subtree} (ht : d.Holds t) :
    Removed d (d.remove t.id).2 t.id t.ids := by
  obtain ⟨_, hread⟩ := remove_eq h ht
  have hnodup := ht.nodup_ids h.linked
  have hlive : ∀ m, (d.remove t.id).2.contains m = true ↔ d.contains m = true ∧ m ∉ t.ids := by
    intro m
    rw [contains, hread, contains]
    split
    · next hmem => simp [hmem]
    · next hout => simp [hout]
  refine ⟨hnodup, ht.mem_ids_iff h.linked, hlive, ?_, fun {p node} hnode hp => ?_, fun {m} hout hp => ?_,
    body_remove d t.id, ?_⟩
  · refine nodeCount_eq_add_length hnodup (fun m hm => ((hlive m).mp hm).1) fun m => ?_
    rw [← Bool.not_eq_true, hlive, not_and_or, Classical.not_not]
    refine ⟨fun hm => ⟨contains_iff.mpr (ht.live m hm), Or.inr hm⟩, fun h => h.2.resolve_left fun hgone => hgone h.1⟩
  · have hout : p ∉ t.ids := fun hmem => h.linked.acyclic t.id (.head' hp ((ht.mem_ids_iff h.linked p).mp hmem))
    obtain ⟨front, back, hfamily, hsevered⟩ := exists_severed_parent h.linked hnode hp
    refine ⟨front, back, hfamily, ?_⟩
    rw [hread, if_neg hout, hnode, Option.map_some, hsevered]
  · rw [hread, if_neg hout]
    cases hm : d.node? m with
    | none => rfl
    | some node =>
      have hne : m ≠ t.id := fun heq => hout (heq ▸ t.id_mem_ids)
      rw [Option.map_some, severed_eq_self h.linked hm hne hp]
  · have hcut := ht.detach h
    have hcontains : d.contains t.id = true := contains_iff.mpr ht.node?
    have hlinked := (h.detach t.id).linked
    rw [Document.remove, if_pos hcontains, Document.freeTree, hcut.postorder hlinked,
      free_foldl_release (hcut.nodup_ids hlinked) hcut.live, free_detach]

/-- In every document that is reached, a live node can be removed. The node and its descendants are freed and no
other node is; the former parent has the same children in the same order without the node, and every other node is
what it was. The next nodes that are created get the slots that were freed, the last freed first; and whatever
happens to the document, a slot that got a node gets another one only when that node is gone. -/
theorem Reachable.remove_frees (h : d.Reachable) (hn : d.contains n = true) :
    (d.remove n).1 = .ok () ∧
      ∃ freed, Removed d (d.remove n).2 n freed ∧
        (∀ data : List NodeData, data.length = freed.length →
          ((d.remove n).2.insertAll data).1 = freed.reverse.map fun m => ⟨m.index, m.generation + 1⟩) ∧
        ∀ {e e' : Document L} {data data' : NodeData}, (d.remove n).2.Precedes e → (e.insert data).2.Precedes e' →
          (e'.insert data').1.index = (e.insert data).1.index → e'.contains (e.insert data).1 = false := by
  have hwell := h.wellFormed
  obtain ⟨node, hnode⟩ := contains_iff.mp hn
  obtain ⟨t, rfl, ht⟩ := hwell.exists_holds hnode
  have hremoved := hwell.removed ht
  have hfreeList := (hwell.remove t.id).freeList
  refine ⟨(remove_eq hwell ht).1, t.ids, hremoved, fun data hlength => ?_, fun {e e' data data'} he he' hindex => ?_⟩
  · rw [(insertAll_of_free hfreeList hremoved.free (by simpa using hlength)).1, ← List.map_reverse, List.map_map]
    refine List.map_congr_left fun m hm => ?_
    obtain ⟨node, hm⟩ := ht.live m (List.mem_reverse.mp hm)
    have hgeneration : d.generation? m.index = some m.generation := by
      rw [generation?, node?_eq_some_iff.mp hm, Option.map_some]
    rw [Function.comp_apply, generation?_remove, hgeneration]
    rfl
  · obtain ⟨ids, hids⟩ := he
    obtain ⟨more, hmore⟩ := he'
    exact contains_of_index_insert (hmore.freeList ((hids.freeList hfreeList).insert data)) hindex

/-- A list between two paragraphs: the paragraph, the list, its item and the other paragraph with their texts. -/
def shelved : Document Unit :=
  match load "<p>a</p><ul><li>one</li></ul><p>b</p>" with
  | .ok d => d
  | .error _ => empty

/-- Removing the list frees it with its item and the text of that. The paragraphs are left beside each other, and
the next three nodes get the three slots. -/
theorem Reachable.remove_frees_shelved :
    shelved.Reachable ∧ shelved.contains ⟨3, 0⟩ = true ∧
      (∃ freed, Removed shelved (shelved.remove ⟨3, 0⟩).2 ⟨3, 0⟩ freed ∧ freed = [⟨5, 0⟩, ⟨4, 0⟩, ⟨3, 0⟩]) ∧
      (shelved.remove ⟨3, 0⟩).2.children ⟨0, 0⟩ = [⟨1, 0⟩, ⟨6, 0⟩] ∧
      ((shelved.remove ⟨3, 0⟩).2.insertAll [.text "c", .text "d", .text "e"]).1 = [⟨3, 1⟩, ⟨4, 1⟩, ⟨5, 1⟩] := by
  have hreached : shelved.Reachable := by
    rw [shelved]
    split
    · next d hload => exact .load hload
    · exact .empty
  have hlist : shelved.contains ⟨3, 0⟩ = true := by decide +kernel
  have hfilled : ((shelved.remove ⟨3, 0⟩).2.insertAll [.text "c", .text "d", .text "e"]).1 =
      [⟨3, 1⟩, ⟨4, 1⟩, ⟨5, 1⟩] := by
    decide +kernel
  have hbefore : shelved.nodeCount = 8 := by decide +kernel
  have hafter : (shelved.remove ⟨3, 0⟩).2.nodeCount = 5 := by decide +kernel
  obtain ⟨_, freed, hremoved, hslots, _⟩ := hreached.remove_frees hlist
  have hlength : freed.length = 3 := by
    have hcount := hremoved.nodeCount
    omega
  refine ⟨hreached, hlist, ⟨freed, hremoved, ?_⟩, by decide +kernel, hfilled⟩
  -- The slots of the new nodes are those of the freed ones, which were of the generation before.
  obtain ⟨a, b, c, rfl⟩ := List.length_eq_three.mp hlength
  have hnew := hslots [.text "c", .text "d", .text "e"] rfl
  rw [hfilled] at hnew
  obtain ⟨ia, ga⟩ := a
  obtain ⟨ib, gb⟩ := b
  obtain ⟨ic, gc⟩ := c
  simp_all

end ReactiveTemplate.Document
