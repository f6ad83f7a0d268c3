import Mathlib.Data.List.Basic
import ReactiveTemplate.Document.Basic

/-!
# Slots of a document

How the steps on slots look through the ids of nodes: which node an id means after a node was put in,
changed or taken out, and what becomes of the list of free slots. Changing and emptying slots needs no
assumption on the document; putting in a node needs the free list to name empty slots only.
-/

namespace ReactiveTemplate.Document

variable {L : Type} {d : Document L}

/-- A slot that is there and holds no node. -/
def IsVacant (d : Document L) (index : Nat) : Prop :=
  ∃ generation, d.slots[index]? = some ⟨generation, none⟩

/-- The free list names every vacant slot, once. -/
structure FreeList (d : Document L) : Prop where
  nodup : d.free.Nodup
  mem_iff : ∀ index, index ∈ d.free ↔ d.IsVacant index

/-- An id means the node in the slot of its index if the generations agree. -/
theorem node?_eq_some_iff {n : NodeId} {node : Node L} :
    d.node? n = some node ↔ d.slots[n.index]? = some ⟨n.generation, some node⟩ := by
  rw [node?, Option.bind_eq_some_iff]
  constructor
  · intro h
    obtain ⟨⟨generation, content⟩, hslot, hread⟩ := h
    split at hread
    · next hgeneration => simp_all
    · contradiction
  · intro hslot
    exact ⟨_, hslot, if_pos rfl⟩

/-- An id is live when it means a node. -/
theorem contains_iff {n : NodeId} : d.contains n = true ↔ ∃ node, d.node? n = some node := by
  rw [contains, Option.isSome_iff_exists]

/-- The slot of a live id is there. -/
theorem index_lt_of_node? {n : NodeId} {node : Node L} (h : d.node? n = some node) :
    n.index < d.slots.size :=
  (Array.getElem?_eq_some_iff.mp (node?_eq_some_iff.mp h)).1

/-- Two live ids with the same index are the same. -/
theorem eq_of_index_eq {m n : NodeId} {x y : Node L} (hm : d.node? m = some x)
    (hn : d.node? n = some y) (hindex : m.index = n.index) : m = n := by
  have hslot := node?_eq_some_iff.mp hm
  rw [hindex, node?_eq_some_iff.mp hn] at hslot
  cases m
  cases n
  simp_all

/-- No id means a node in a vacant slot. -/
theorem node?_eq_none_of_isVacant {n : NodeId} (h : d.IsVacant n.index) : d.node? n = none := by
  obtain ⟨generation, hslot⟩ := h
  simp [node?, hslot]

/-- Reading after one slot was written: ids of other indexes mean what they meant. -/
theorem node?_set (d : Document L) (i : Nat) (slot : Slot L) (hi : i < d.slots.size) (m : NodeId) :
    { d with slots := d.slots.setIfInBounds i slot }.node? m =
      if m.index = i then (if slot.generation = m.generation then slot.node else none)
      else d.node? m := by
  simp only [node?, Array.getElem?_setIfInBounds]
  by_cases hindex : m.index = i
  · subst hindex
    simp [hi]
  · simp [hindex, Ne.symm hindex]

/-- Reading after the slot of a live node was written and keeps its generation: only this id means something
else. -/
theorem node?_set_live {n : NodeId} {node : Node L} (hn : d.node? n = some node) (content : Option (Node L))
    (free : List Nat) (body m : NodeId) :
    node? ⟨d.slots.setIfInBounds n.index ⟨n.generation, content⟩, free, body⟩ m =
      if m = n then content else d.node? m := by
  refine (node?_set d n.index ⟨n.generation, content⟩ (index_lt_of_node? hn) m).trans ?_
  by_cases hmn : m = n
  · simp [hmn]
  · by_cases hindex : m.index = n.index
    · have hgeneration : n.generation ≠ m.generation := by
        intro heq
        exact hmn (by cases m; cases n; simp_all)
      have hread : d.node? m = none := by
        rw [node?, hindex, node?_eq_some_iff.mp hn]
        simp [hgeneration]
      simp [hindex, hgeneration, hmn, hread]
    · simp [hindex, hmn]

/-- Vacancy after one slot was written. -/
theorem isVacant_set (d : Document L) (i : Nat) (slot : Slot L) (hi : i < d.slots.size) (k : Nat) :
    { d with slots := d.slots.setIfInBounds i slot }.IsVacant k ↔
      if k = i then slot.node = none else d.IsVacant k := by
  simp only [IsVacant, Array.getElem?_setIfInBounds]
  by_cases hindex : k = i
  · subst hindex
    cases slot
    simp [hi]
  · simp [hindex, Ne.symm hindex]

/-! ### Changing a node -/

/-- Only the changed id means something else. -/
theorem node?_modify (d : Document L) (n : NodeId) (f : Node L → Node L) (m : NodeId) :
    (d.modify n f).node? m = if m = n then (d.node? n).map f else d.node? m := by
  rw [modify]
  cases hn : d.node? n with
  | none =>
    by_cases hmn : m = n
    · simp [hmn, hn]
    · simp [hmn]
  | some node => exact node?_set_live hn _ _ _ m

/-- Changing a node fills and empties no slot. -/
theorem isVacant_modify (d : Document L) (n : NodeId) (f : Node L → Node L) (k : Nat) :
    (d.modify n f).IsVacant k ↔ d.IsVacant k := by
  rw [modify]
  cases hn : d.node? n with
  | none => rfl
  | some node =>
    rw [isVacant_set d _ _ (index_lt_of_node? hn)]
    split
    · next hindex =>
      have hslot := node?_eq_some_iff.mp hn
      simp [IsVacant, hindex, hslot]
    · rfl

@[simp]
theorem free_modify (d : Document L) (n : NodeId) (f : Node L → Node L) :
    (d.modify n f).free = d.free := by
  rw [modify]
  split <;> rfl

@[simp]
theorem body_modify (d : Document L) (n : NodeId) (f : Node L → Node L) :
    (d.modify n f).body = d.body := by
  rw [modify]
  split <;> rfl

/-- Changing a node keeps the free list exact. -/
theorem FreeList.modify (h : d.FreeList) (n : NodeId) (f : Node L → Node L) :
    (d.modify n f).FreeList where
  nodup := by simpa using h.nodup
  mem_iff k := by rw [free_modify, isVacant_modify, h.mem_iff]

/-! ### Emptying a slot -/

/-- Only the released id is no longer live. -/
theorem node?_release (d : Document L) (n m : NodeId) :
    (d.release n).node? m = if m = n then none else d.node? m := by
  rw [release]
  cases hn : d.node? n with
  | none =>
    by_cases hmn : m = n
    · simp [hmn, hn]
    · simp [hmn]
  | some node => exact node?_set_live hn _ _ _ m

@[simp]
theorem body_release (d : Document L) (n : NodeId) : (d.release n).body = d.body := by
  rw [release]
  split <;> rfl

/-- A released slot becomes free once. -/
theorem FreeList.release (h : d.FreeList) (n : NodeId) : (d.release n).FreeList := by
  rw [Document.release]
  cases hn : d.node? n with
  | none => exact h
  | some node =>
    have hslot := node?_eq_some_iff.mp hn
    have hout : n.index ∉ d.free := by
      rw [h.mem_iff]
      intro hfree
      obtain ⟨generation, hvacant⟩ := hfree
      simp [hslot] at hvacant
    refine ⟨List.nodup_cons.mpr ⟨hout, h.nodup⟩, fun k => ?_⟩
    have hread := isVacant_set d n.index ⟨n.generation, none⟩ (index_lt_of_node? hn) k
    simp only [IsVacant] at hread ⊢
    rw [hread, List.mem_cons]
    by_cases hk : k = n.index
    · simp [hk]
    · simpa [hk, IsVacant] using h.mem_iff k

/-! ### Putting in a node -/

/-- The node that is put in: it stands alone. -/
def bare (data : NodeData) : Node L := ⟨none, [], data, []⟩

/-- Only the id that is given out becomes live, and it was not live before. -/
theorem node?_insert (h : d.FreeList) (data : NodeData) :
    d.node? (d.insert data).1 = none ∧
      ∀ m, (d.insert data).2.node? m = if m = (d.insert data).1 then some (bare data) else d.node? m := by
  rw [insert]
  cases hfree : d.free with
  | nil =>
    refine ⟨by simp [node?], fun m => ?_⟩
    by_cases hindex : m.index = d.slots.size
    · have hread : d.node? m = none := by simp [node?, hindex]
      cases m with
      | mk index generation =>
        simp only at hindex
        subst hindex
        simp [node?, bare, eq_comm] at hread ⊢
    · have hmn : m ≠ ⟨d.slots.size, 0⟩ := fun heq => hindex (by rw [heq])
      simp [node?, Array.getElem?_push, hindex, hmn]
  | cons index rest =>
    obtain ⟨generation, hslot⟩ := (h.mem_iff index).mp (by simp [hfree])
    have hindex : index < d.slots.size := (Array.getElem?_eq_some_iff.mp hslot).1
    refine ⟨node?_eq_none_of_isVacant ⟨generation, hslot⟩, fun m => ?_⟩
    have hread := node?_set d index ⟨generation + 1, some (bare data)⟩ hindex m
    simp only [hslot, Option.map_some, Option.getD_some]
    simp only [node?, bare] at hread ⊢
    rw [hread]
    by_cases hm : m.index = index
    · cases m with
      | mk index' generation' =>
        simp only at hm
        subst hm
        simp [hslot, eq_comm]
    · have hmn : m ≠ ⟨index, generation + 1⟩ := fun heq => hm (by rw [heq])
      simp [hm, hmn]

@[simp]
theorem body_insert (d : Document L) (data : NodeData) : (d.insert data).2.body = d.body := by
  rw [insert]
  split <;> rfl

/-- The slot that is filled leaves the free list. -/
theorem FreeList.insert (h : d.FreeList) (data : NodeData) : (d.insert data).2.FreeList := by
  rw [Document.insert]
  cases hfree : d.free with
  | nil =>
    refine ⟨by simp, fun k => ?_⟩
    have hvacant := h.mem_iff k
    simp only [hfree, List.not_mem_nil, false_iff, IsVacant] at hvacant ⊢
    rw [Array.getElem?_push]
    split <;> simp_all
  | cons index rest =>
    obtain ⟨generation, hslot⟩ := (h.mem_iff index).mp (by simp [hfree])
    have hindex : index < d.slots.size := (Array.getElem?_eq_some_iff.mp hslot).1
    have hnodup := h.nodup
    rw [hfree, List.nodup_cons] at hnodup
    refine ⟨hnodup.2, fun k => ?_⟩
    have hread := isVacant_set d index ⟨generation + 1, some (bare data)⟩ hindex k
    simp only [hslot, Option.map_some, Option.getD_some]
    simp only [IsVacant, bare] at hread ⊢
    rw [hread]
    by_cases hk : k = index
    · simp [hk, hnodup.1]
    · have hvacant := h.mem_iff k
      simpa [hfree, hk, IsVacant] using hvacant

/-! ### What is neither a matter of links nor lost with a node -/

/-- Something about documents that stays true when a node is linked otherwise and when a slot is emptied. -/
structure Stable (I : Document L → Prop) : Prop where
  relinked {d : Document L} (h : I d) (n : NodeId) {f : Node L → Node L}
    (hf : ∀ node, (f node).data = node.data ∧ (f node).listeners = node.listeners) : I (d.modify n f)
  release {d : Document L} (h : I d) (n : NodeId) : I (d.release n)

namespace Stable

variable {I : Document L → Prop}

/-- It stays true when a tree is freed. -/
theorem freeTree (hI : Stable I) (h : I d) (n : NodeId) : I (d.freeTree n) := by
  rw [Document.freeTree]
  generalize d.postorder n = ns
  induction ns generalizing d with
  | nil => exact h
  | cons m rest ih => exact ih (hI.release h m)

/-- It stays true when a node is cut off. -/
theorem detach (hI : Stable I) (h : I d) (n : NodeId) : I (d.detach n) := by
  rw [Document.detach]
  split
  · refine hI.relinked (hI.relinked h _ ?_) n ?_ <;> exact fun _ => ⟨rfl, rfl⟩
  · exact h

/-- It stays true when a node is appended. -/
theorem append (hI : Stable I) (h : I d) (parent child : NodeId) : I (d.append parent child).2 := by
  rw [Document.append]
  split
  · exact h
  · split
    · exact h
    · split
      · dsimp only
        refine hI.relinked (hI.relinked (hI.detach h child) parent ?_) child ?_ <;> exact fun _ => ⟨rfl, rfl⟩
      · exact h

/-- It stays true when a node is removed. -/
theorem remove (hI : Stable I) (h : I d) (n : NodeId) : I (d.remove n).2 := by
  rw [Document.remove]
  split
  · exact hI.freeTree (hI.detach h n) n
  · exact h

end Stable

/-- Which node is the body is no matter of links. -/
theorem stable_body (body : NodeId) : Stable fun d : Document L => d.body = body where
  relinked h n _ _ := (body_modify _ n _).trans h
  release h n := (body_release _ n).trans h

/-- That the free list is exact is no matter of links. -/
theorem FreeList.stable : Stable (FreeList : Document L → Prop) where
  relinked h n _ _ := h.modify n _
  release h n := h.release n

end ReactiveTemplate.Document
