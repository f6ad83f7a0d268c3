import ReactiveTemplate.Proofs.Document.Links
import ReactiveTemplate.Proofs.Document.Slots

/-!
# Well-formed documents

A document is well formed when its free list is exact, its links form trees and its texts are leaves
without listeners. Every operation keeps it so, as long as no node is put below itself. Each operation
has one equation for the node of every id after it; what happens to parents, children and the rest of
a node is read off that equation.
-/

namespace ReactiveTemplate.Document

variable {L : Type} {d : Document L}

/-- What holds of every document that operations lead to. -/
structure WellFormed (d : Document L) : Prop where
  freeList : d.FreeList
  linked : d.Linked
  text_bare : ∀ {n node content}, d.node? n = some node → node.data = .text content →
    node.children = [] ∧ node.listeners = []

/-- The parent of a live node is the one it names. -/
theorem parent?_of_node? {n : NodeId} {node : Node L} (h : d.node? n = some node) :
    d.parent? n = node.parent := by
  simp [parent?, h]

/-- The children of a live node are those it lists. -/
theorem children_of_node? {n : NodeId} {node : Node L} (h : d.node? n = some node) :
    d.children n = node.children := by
  simp [children, h]

/-- A node with a parent is live. -/
theorem node?_of_parent {n p : NodeId} (h : d.parent? n = some p) : ∃ node, d.node? n = some node := by
  obtain ⟨node, hnode, _⟩ := Option.bind_eq_some_iff.mp h
  exact ⟨node, hnode⟩

/-- A node with children is live. -/
theorem node?_of_mem_children {n c : NodeId} (h : c ∈ d.children n) : ∃ node, d.node? n = some node := by
  rw [children] at h
  split at h
  · next node hnode => exact ⟨node, hnode⟩
  · contradiction

/-- The parent of a node is live. -/
theorem Linked.node?_of_parent (h : d.Linked) {n p : NodeId} (hp : d.parent? n = some p) :
    ∃ node, d.node? p = some node :=
  node?_of_mem_children (h.mem_of_parent hp)

/-! ### The document without slots, and new nodes -/

/-- The document that has no slot yet; the first node put into it gets the id of the body. -/
def void : Document L := ⟨#[], [], ⟨0, 0⟩⟩

/-- No id is live in the void. -/
@[simp]
theorem node?_void (n : NodeId) : (void : Document L).node? n = none := by
  simp [node?, void]

/-- The void is well formed. -/
theorem wellFormed_void : (void : Document L).WellFormed where
  freeList := ⟨List.nodup_nil, fun _ => by simp [void, IsVacant]⟩
  linked :=
    { parent_of_mem := fun hc => by simp [children] at hc
      mem_of_parent := fun hp => by simp [parent?] at hp
      nodup := fun _ => by simp [children]
      acyclic := fun n hcycle => by
        obtain ⟨p, hp, _⟩ := Relation.TransGen.head'_iff.mp hcycle
        simp [Climbs, parent?] at hp }
  text_bare hn := by simp at hn

namespace WellFormed

/-- A new node has no links, so all links stay. -/
theorem parent?_insert (h : d.WellFormed) (data : NodeData) (m : NodeId) :
    (d.insert data).2.parent? m = d.parent? m := by
  obtain ⟨hfresh, hread⟩ := node?_insert h.freeList data
  rw [parent?, hread]
  split
  · next hm => simp [hm, parent?, hfresh, bare]
  · rfl

/-- A new node has no children, and is no child. -/
theorem children_insert (h : d.WellFormed) (data : NodeData) (m : NodeId) :
    (d.insert data).2.children m = d.children m := by
  obtain ⟨hfresh, hread⟩ := node?_insert h.freeList data
  rw [children, hread]
  by_cases hm : m = (d.insert data).1
  · simp [hm, children, hfresh, bare]
  · simp [hm, children]

/-- Putting in a node keeps a document well formed. -/
theorem insert (h : d.WellFormed) (data : NodeData) : (d.insert data).2.WellFormed where
  freeList := h.freeList.insert data
  linked := h.linked.congr (h.parent?_insert data) (h.children_insert data)
  text_bare {n node content} hn hdata := by
    rw [(node?_insert h.freeList data).2] at hn
    split at hn
    · cases hn
      exact ⟨rfl, rfl⟩
    · exact h.text_bare hn hdata

/-! ### Operations on one element -/

/-- What an operation on an element does, when it leaves the links of the element alone. -/
theorem onElement (h : d.WellFormed) (n : NodeId) {f : Node L → Element → Node L}
    (hparent : ∀ node e, (f node e).parent = node.parent)
    (hchildren : ∀ node e, (f node e).children = node.children)
    (hdata : ∀ node e, node.data = .element e → ∃ e', (f node e).data = .element e') :
    (d.onElement n f).2.WellFormed := by
  rw [Document.onElement]
  split
  · exact h
  · next node hn =>
    split
    · next e he =>
      have hread := node?_modify d n fun node => f node e
      rw [hn] at hread
      refine ⟨h.freeList.modify n _, h.linked.congr (fun m => ?_) fun m => ?_, fun {m x content} hm hx => ?_⟩
      · rw [parent?, hread]
        split
        · next hmn => simp [hmn, parent?, hn, hparent]
        · rfl
      · rw [children, hread]
        by_cases hmn : m = n
        · simp [hmn, children, hn, hchildren]
        · simp [hmn, children]
      · rw [hread] at hm
        split at hm
        · cases hm
          obtain ⟨e', he'⟩ := hdata node e he
          rw [he'] at hx
          contradiction
        · exact h.text_bare hm hx
    · exact h

/-- Changing the data of an element keeps a document well formed. -/
theorem editElement (h : d.WellFormed) (n : NodeId) (f : Element → Element) :
    (d.editElement n f).2.WellFormed :=
  h.onElement n (fun _ _ => rfl) (fun _ _ => rfl) fun _ e _ => ⟨f e, rfl⟩

/-- Adding a listener keeps a document well formed. -/
theorem addListener (h : d.WellFormed) (n : NodeId) (event : String) (listener : L) :
    (d.addListener n event listener).2.WellFormed :=
  h.onElement n (fun _ _ => rfl) (fun _ _ => rfl) fun _ e he => ⟨e, he⟩

end WellFormed

@[simp]
theorem body_onElement (d : Document L) (n : NodeId) (f : Node L → Element → Node L) :
    (d.onElement n f).2.body = d.body := by
  rw [onElement]
  split
  · rfl
  · split <;> simp

/-- An operation on a live element is done, and changes that element alone. -/
theorem onElement_eq {n : NodeId} {node : Node L} {e : Element} (hn : d.node? n = some node)
    (he : node.data = .element e) (f : Node L → Element → Node L) :
    d.onElement n f = (.ok (), d.modify n fun node => f node e) := by
  simp [onElement, hn, he]

/-! ### Cutting a node off -/

/-- A node after another one was cut off. -/
def severed (n m : NodeId) (node : Node L) : Node L :=
  { node with
    parent := if m = n then none else node.parent
    children := node.children.filter (· ≠ n) }

/-- A node that is not listed is not missed. -/
theorem filter_children (h : d.Linked) {n m : NodeId} {node : Node L} (hm : d.node? m = some node)
    (hp : d.parent? n ≠ some m) : node.children.filter (· ≠ n) = node.children := by
  apply List.filter_eq_self.mpr
  intro c hc
  rw [decide_eq_true_eq]
  intro heq
  subst heq
  exact hp (h.parent_of_mem (by rwa [children_of_node? hm]))

/-- A node that is neither cut off nor the parent of the one that is stays as it was. -/
theorem severed_eq_self (h : d.Linked) {n m : NodeId} {node : Node L} (hm : d.node? m = some node) (hne : m ≠ n)
    (hp : d.parent? n ≠ some m) : severed n m node = node := by
  rw [severed, if_neg hne, filter_children h hm hp]

/-- The parent of the node that is cut off has the other children in the same order. -/
theorem exists_severed_parent (h : d.Linked) {n p : NodeId} {node : Node L} (hnode : d.node? p = some node)
    (hp : d.parent? n = some p) :
    ∃ front back, node.children = front ++ n :: back ∧ severed n p node = { node with children := front ++ back } := by
  have hchild := h.mem_of_parent hp
  have honce := h.nodup p
  rw [children_of_node? hnode] at hchild honce
  obtain ⟨front, back, hfamily⟩ := List.append_of_mem hchild
  rw [hfamily] at honce
  obtain ⟨_, hlast, hfirst⟩ := List.nodup_append.mp honce
  have hothers : ∀ c ∈ front ++ back, c ≠ n := by
    intro c hc heq
    rcases List.mem_append.mp hc with hc | hc
    · exact hfirst c hc n List.mem_cons_self heq
    · exact (List.nodup_cons.mp hlast).1 (heq ▸ hc)
  have hkept : (front ++ n :: back).filter (· ≠ n) = front ++ back := by
    rw [List.filter_append, List.filter_cons_of_neg (by simp), ← List.filter_append, List.filter_eq_self]
    exact fun c hc => decide_eq_true (hothers c hc)
  refine ⟨front, back, hfamily, ?_⟩
  rw [severed, if_neg (h.ne_of_parent hp).symm, hfamily, hkept]

/-- Every node forgets its link to the one that was cut off. -/
theorem node?_detach (h : d.Linked) (n m : NodeId) :
    (d.detach n).node? m = (d.node? m).map (severed n m) := by
  cases hm : d.node? m with
  | none =>
    rw [detach]
    split
    · rw [node?_modify, node?_modify, node?_modify]
      grind
    · exact hm
  | some node =>
    have hnode : (d.detach n).node? m =
        some { node with
          parent := if m = n then none else node.parent
          children := if d.parent? n = some m then node.children.filter (· ≠ n) else node.children } := by
      rw [detach]
      split
      · next p hp =>
        have hnp := h.ne_of_parent hp
        rw [node?_modify, node?_modify, node?_modify, if_neg hnp]
        by_cases hmn : m = n
        · subst hmn
          simp [hm, hp, hnp.symm]
        · by_cases hmp : m = p
          · subst hmp
            simp [hm, hp, hmn]
          · simp [hm, hp, hmn, hmp, Ne.symm hmp]
      · next hroot =>
        have hparent := parent?_of_node? hm
        by_cases hmn : m = n
        · subst hmn
          rw [hroot] at hparent
          rw [hm, hroot, if_pos rfl, if_neg (by simp), hparent]
        · simp [hm, hroot, hmn]
    rw [hnode, Option.map_some, severed]
    by_cases hp : d.parent? n = some m
    · rw [if_pos hp]
    · rw [if_neg hp, filter_children h hm hp]

/-- Cutting a node off leaves only that node without a parent. -/
theorem parent?_detach (h : d.Linked) (n m : NodeId) :
    (d.detach n).parent? m = if m = n then none else d.parent? m := by
  rw [parent?, node?_detach h]
  cases hm : d.node? m with
  | none => simp [parent?, hm]
  | some node => simp [severed, parent?, hm]

/-- Cutting a node off takes it out of all lists of children. -/
theorem children_detach (h : d.Linked) (n m : NodeId) :
    (d.detach n).children m = (d.children m).filter (· ≠ n) := by
  rw [children, node?_detach h]
  cases hm : d.node? m with
  | none => simp [children, hm]
  | some node => simp [severed, children, hm]

/-- Cutting a node off keeps all ids live. -/
theorem contains_detach (h : d.Linked) (n m : NodeId) : (d.detach n).contains m = d.contains m := by
  rw [contains, node?_detach h, Option.isSome_map, contains]

/-- Cutting a node off keeps a document well formed. -/
theorem WellFormed.detach (h : d.WellFormed) (n : NodeId) : (d.detach n).WellFormed where
  freeList := FreeList.stable.detach h.freeList n
  linked := h.linked.cut (parent?_detach h.linked n) (children_detach h.linked n)
  text_bare {m node content} hm hdata := by
    rw [node?_detach h.linked, Option.map_eq_some_iff] at hm
    obtain ⟨before, hbefore, rfl⟩ := hm
    have hbare := h.text_bare hbefore hdata
    simp [severed, hbare]

/-- Cutting a node off shortens paths and makes none. -/
theorem within_of_detach (h : d.Linked) {n m a : NodeId} (hwithin : (d.detach n).Within m a) :
    d.Within m a := by
  refine Relation.ReflTransGen.mono (fun x y hxy => ?_) _ _ hwithin
  rw [Climbs, parent?_detach h] at hxy
  split at hxy
  · contradiction
  · exact hxy

/-! ### Hanging a node in -/

/-- A node after `c` was made the last child of `p`. -/
def adopted (p c m : NodeId) (node : Node L) : Node L :=
  { node with
    parent := if m = c then some p else node.parent
    children := if m = p then node.children.filter (· ≠ c) ++ [c] else node.children.filter (· ≠ c) }

/-- Appending a live node to a live element is done. The node leaves its old place and becomes the last
child of the element; nothing else changes. -/
theorem append_eq (h : d.WellFormed) {p c : NodeId} {node : Node L} {e : Element}
    (hp : d.node? p = some node) (he : node.data = .element e) (hc : d.contains c = true) (hne : c ≠ p) :
    (d.append p c).1 = .ok () ∧ ∀ m, (d.append p c).2.node? m = (d.node? m).map (adopted p c m) := by
  simp only [append, hp, he, hc, if_true, true_and]
  intro m
  rw [node?_modify, node?_modify, node?_modify, if_neg hne]
  simp only [node?_detach h.linked]
  by_cases hmc : m = c
  · subst hmc
    cases hm : d.node? m with
    | none => simp
    | some before => simp [severed, adopted, hne]
  · by_cases hmp : m = p
    · subst hmp
      simp [severed, adopted, hmc, hp]
    · cases hm : d.node? m with
      | none => simp [hmc, hmp]
      | some before => simp [severed, adopted, hmc, hmp]

@[simp]
theorem body_append (d : Document L) (p c : NodeId) : (d.append p c).2.body = d.body :=
  (stable_body d.body).append rfl p c

/-- An append that is refused changes nothing. -/
theorem append_of_refused {p c : NodeId} (h : (d.append p c).1 ≠ .ok ()) : (d.append p c).2 = d := by
  rw [append] at h ⊢
  split
  · rfl
  · split
    · rfl
    · split <;> simp_all

/-- Appending keeps a document well formed, unless the new parent lies within the node. -/
theorem WellFormed.append (h : d.WellFormed) {p c : NodeId} (hpath : ¬ d.Within p c) :
    (d.append p c).2.WellFormed := by
  have hne : c ≠ p := fun heq => hpath (heq ▸ .refl)
  have hrefused (hout : (d.append p c).1 ≠ .ok ()) : (d.append p c).2.WellFormed := by
    rwa [append_of_refused hout]
  cases hp : d.node? p with
  | none => exact hrefused (by simp [Document.append, hp])
  | some node =>
    cases he : node.data with
    | text content => exact hrefused (by simp [Document.append, hp, he])
    | element e =>
      by_cases hc : d.contains c = true
      · have hread := (append_eq h hp he hc hne).2
        refine ⟨FreeList.stable.append h.freeList p c, (h.detach c).linked.hang (c := c) (p := p) ?_ ?_
          (fun m => ?_) (fun m => ?_), fun {m after content} hm hdata => ?_⟩
        · rw [parent?_detach h.linked, if_pos rfl]
        · exact fun hwithin => hpath (within_of_detach h.linked hwithin)
        · rw [parent?, hread, parent?_detach h.linked]
          by_cases hmc : m = c
          · obtain ⟨child, hchild⟩ := contains_iff.mp hc
            simp [hmc, hchild, adopted]
          · cases hm : d.node? m <;> simp [adopted, hmc, parent?, hm]
        · rw [children, hread, children_detach h.linked, children_detach h.linked]
          by_cases hmp : m = p
          · simp [hmp, hp, adopted, children]
          · cases hm : d.node? m <;> simp [adopted, hmp, children, hm]
        · rw [hread, Option.map_eq_some_iff] at hm
          obtain ⟨before, hbefore, rfl⟩ := hm
          have hmp : m ≠ p := by
            intro heq
            rw [heq, hp] at hbefore
            cases hbefore
            exact absurd (he.symm.trans hdata) (by simp)
          have hbare := h.text_bare hbefore hdata
          simp [adopted, hmp, hbare]
      · exact hrefused (by simp [Document.append, hp, he, hc])

end ReactiveTemplate.Document
