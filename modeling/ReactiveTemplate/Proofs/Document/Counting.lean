import ReactiveTemplate.Proofs.Document.Trees

/-!
# Counting live nodes

A slot that holds a node makes one id live, so the node count is the number of live ids. Distinct live ids
are no more than slots; that is why a lineage, which stops after as many steps, misses no ancestor.
-/

namespace ReactiveTemplate.Document

open Relation

variable {L : Type} {d : Document L}

/-! ### The node count -/

/-- The ids of all live nodes. -/
def liveIds (d : Document L) : List NodeId :=
  d.slots.toList.zipIdx.filterMap fun (slot, index) =>
    if slot.node.isSome then some ⟨index, slot.generation⟩ else none

/-- The ids listed are those that are live. -/
theorem mem_liveIds {n : NodeId} : n ∈ d.liveIds ↔ d.contains n = true := by
  rw [liveIds, List.mem_filterMap, contains_iff]
  constructor
  · intro h
    obtain ⟨⟨⟨generation, node⟩, index⟩, hmem, hlive⟩ := h
    rw [List.mem_zipIdx_iff_getElem?, Array.getElem?_toList] at hmem
    cases node with
    | none => cases hlive
    | some node =>
      cases hlive
      exact ⟨node, node?_eq_some_iff.mpr hmem⟩
  · intro h
    obtain ⟨node, hnode⟩ := h
    refine ⟨(⟨n.generation, some node⟩, n.index), ?_, rfl⟩
    rw [List.mem_zipIdx_iff_getElem?, Array.getElem?_toList]
    exact node?_eq_some_iff.mp hnode

/-- No live id is listed twice. -/
theorem nodup_liveIds (d : Document L) : d.liveIds.Nodup := by
  have hplaces : (d.slots.toList.zipIdx.map Prod.snd).Nodup := by
    rw [List.zipIdx_map_snd]
    exact List.nodup_range'
  refine (List.pairwise_map.mp hplaces).filterMap _ fun a a' hne n hn n' hn' heq => hne ?_
  simp only [Option.ite_none_right_eq_some, Option.some.injEq] at hn hn'
  rw [← hn.2, ← hn'.2] at heq
  exact (NodeId.mk.inj heq).1

/-- There are as many live nodes as live ids. -/
theorem length_liveIds (d : Document L) : d.liveIds.length = d.nodeCount := by
  have hslots : d.nodeCount = (d.slots.toList.zipIdx.map Prod.fst).countP (·.node.isSome) := by
    rw [List.zipIdx_map_fst, nodeCount]
  rw [hslots, List.countP_map, liveIds, List.length_filterMap_eq_countP]
  congr 1
  funext entry
  obtain ⟨slot, index⟩ := entry
  dsimp only [Function.comp]
  cases slot.node.isSome <;> rfl

/-- A list of all live ids without repetition is as long as the node count says. -/
theorem nodeCount_eq_length {ns : List NodeId} (hnodup : ns.Nodup) (hlive : ∀ n, n ∈ ns ↔ d.contains n = true) :
    d.nodeCount = ns.length := by
  have hperm : d.liveIds.Perm ns := (List.perm_ext_iff_of_nodup d.nodup_liveIds hnodup).mpr fun n => by
    rw [mem_liveIds, hlive]
  rw [← length_liveIds, hperm.length_eq]

/-- A document with more live nodes counts as many more as there are. -/
theorem nodeCount_eq_add_length {d' : Document L} {ids : List NodeId} (hnodup : ids.Nodup)
    (hkept : ∀ n, d.contains n = true → d'.contains n = true)
    (hids : ∀ n, n ∈ ids ↔ d'.contains n = true ∧ d.contains n = false) :
    d'.nodeCount = d.nodeCount + ids.length := by
  have hall : (d.liveIds ++ ids).Nodup := by
    refine List.nodup_append.mpr ⟨d.nodup_liveIds, hnodup, fun n hn m hm heq => ?_⟩
    rw [mem_liveIds, heq, ((hids m).mp hm).2] at hn
    cases hn
  rw [nodeCount_eq_length hall fun n => ?_, List.length_append, length_liveIds]
  rw [List.mem_append, mem_liveIds, hids]
  constructor
  · rintro (hn | hn)
    · exact hkept n hn
    · exact hn.1
  · intro hn
    cases hbefore : d.contains n with
    | true => exact Or.inl rfl
    | false => exact Or.inr ⟨hn, rfl⟩

/-! ### Lineages -/

/-- The ids of a lineage lie above its first. -/
theorem within_of_mem_lineageWithin {fuel : Nat} {n a : NodeId} (h : a ∈ d.lineageWithin fuel n) :
    d.Within n a := by
  induction fuel generalizing n with
  | zero => cases h
  | succ fuel ih =>
    rw [lineageWithin] at h
    rcases List.mem_cons.mp h with rfl | hrest
    · exact .refl
    · split at hrest
      · next p hp => exact .head hp (ih hrest)
      · cases hrest

/-- No id is twice in a lineage. -/
theorem nodup_lineageWithin (hd : d.Linked) (fuel : Nat) (n : NodeId) : (d.lineageWithin fuel n).Nodup := by
  induction fuel generalizing n with
  | zero => exact List.nodup_nil
  | succ fuel ih =>
    rw [lineageWithin]
    split
    · next p hp =>
      refine List.nodup_cons.mpr ⟨fun hmem => ?_, ih p⟩
      exact hd.acyclic n (.head' hp (within_of_mem_lineageWithin hmem))
    · exact List.nodup_singleton n

/-- A path leads from a node to its parent and so on, up to a node without a parent. -/
inductive Ascends (d : Document L) : NodeId → List NodeId → Prop
  | top {n : NodeId} (hn : d.parent? n = none) : Ascends d n [n]
  | up {n p : NodeId} {path : List NodeId} (hn : d.parent? n = some p) (habove : Ascends d p path) :
      Ascends d n (n :: path)

namespace Ascends

variable {n a : NodeId} {path path' : List NodeId}

/-- There is one way up. -/
theorem unique (h : d.Ascends n path) (h' : d.Ascends n path') : path = path' := by
  induction h generalizing path' with
  | top hn =>
    cases h' with
    | top => rfl
    | up hn' => cases hn.symm.trans hn'
  | up hn _ ih =>
    cases h' with
    | top hn' => cases hn'.symm.trans hn
    | up hn' habove =>
      cases hn.symm.trans hn'
      rw [ih habove]

/-- All ancestors of a node are on the way up from it. -/
theorem mem (h : d.Ascends n path) (ha : d.Within n a) : a ∈ path := by
  induction h with
  | top hn => exact List.mem_singleton.mpr (eq_of_within_of_parent_none hn ha).symm
  | @up n p path hn _ ih =>
    rcases ReflTransGen.cases_head ha with rfl | ⟨q, hq, habove⟩
    · exact List.mem_cons_self
    · have hparent : d.parent? n = some q := hq
      cases hn.symm.trans hparent
      exact List.mem_cons_of_mem n (ih habove)

end Ascends

/-- A lineage leads up to the top, unless its budget ends it. -/
theorem ascends_or_full (d : Document L) (fuel : Nat) (n : NodeId) :
    d.Ascends n (d.lineageWithin fuel n) ∨
      (d.lineageWithin fuel n).length = fuel ∧ ∀ m ∈ d.lineageWithin fuel n, ∃ node, d.node? m = some node := by
  induction fuel generalizing n with
  | zero => exact Or.inr ⟨rfl, fun m hm => absurd hm List.not_mem_nil⟩
  | succ fuel ih =>
    rw [lineageWithin]
    cases hn : d.parent? n with
    | none => exact Or.inl (.top hn)
    | some p =>
      rcases ih p with habove | ⟨hlength, hlive⟩
      · exact Or.inl (.up hn habove)
      · refine Or.inr ⟨congrArg (· + 1) hlength, fun m hm => ?_⟩
        rcases List.mem_cons.mp hm with rfl | hm
        · exact node?_of_parent hn
        · exact hlive m hm

/-- A lineage leads up to the top. -/
theorem Linked.ascends_lineage (hd : d.Linked) (n : NodeId) : d.Ascends n (d.lineage n) := by
  rcases ascends_or_full d (d.slots.size + 1) n with habove | ⟨hlength, hlive⟩
  · exact habove
  · have hbound := length_le_of_live (nodup_lineageWithin hd _ n) hlive
    omega

/-- The lineage of a node is made of the node and all its ancestors. -/
theorem Linked.mem_lineage_iff (hd : d.Linked) {n a : NodeId} : a ∈ d.lineage n ↔ d.Within n a :=
  ⟨within_of_mem_lineageWithin, (hd.ascends_lineage n).mem⟩

/-- A node is attached if it lies within the body. -/
theorem Linked.isAttached_iff (hd : d.Linked) {n : NodeId} : d.isAttached n = true ↔ d.Within n d.body := by
  rw [isAttached, decide_eq_true_eq, hd.mem_lineage_iff]

end ReactiveTemplate.Document
