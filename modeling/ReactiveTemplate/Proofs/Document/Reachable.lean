import ReactiveTemplate.Proofs.Document.Growth

/-!
# Documents reached by operations

A document is reached when markup was read and then operations were done in any order, with any ids,
whether they were granted or refused. Only operations that would put a node below itself are left out;
documents do not guard against these. Every document that is reached is well formed.
-/

namespace ReactiveTemplate.Document

variable {L : Type} {d : Document L}

/-- An operation on a document. -/
inductive Operation (L : Type) where
  | createElement (tag : String)
  | createText (content : String)
  | append (parent child : NodeId)
  | replace (old new : NodeId)
  | remove (n : NodeId)
  | setAttribute (n : NodeId) (name value : String)
  | removeAttribute (n : NodeId) (name : String)
  | addClass (n : NodeId) (name : String)
  | setStyle (n : NodeId) (property : String) (value : Option String)
  | addListener (n : NodeId) (event : String) (listener : L)

namespace Operation

/-- The document after an operation, also when it was refused. -/
def apply (d : Document L) : Operation L → Document L
  | createElement tag => (d.createElement tag).2
  | createText content => (d.createText content).2
  | append parent child => (d.append parent child).2
  | replace old new => (d.replace old new).2
  | remove n => (d.remove n).2
  | setAttribute n name value => (d.setAttribute n name value).2
  | removeAttribute n name => (d.removeAttribute n name).2
  | addClass n name => (d.addClass n name).2
  | setStyle n property value => (d.setStyle n property value).2
  | addListener n event listener => (d.addListener n event listener).2

/-- The operation puts a node below itself: a node is appended within itself, and that is not refused
for another reason, or a node takes the place of one below it. -/
def Entwines (d : Document L) : Operation L → Prop
  | append parent child => (d.append parent child).1 = .ok () ∧ d.Within parent child
  | replace old new => d.Below old new
  | _ => False

/-- No node comes below itself by being appended to the top of another tree. -/
theorem not_entwines_append {parent child : NodeId} (hroot : d.parent? parent = none) (hne : parent ≠ child) :
    ¬ Entwines d (append parent child) :=
  fun hpath => hne (eq_of_within_of_parent_none hroot hpath.2)

/-- An operation keeps a document well formed, unless it puts a node below itself. -/
theorem wellFormed_apply (h : d.WellFormed) (o : Operation L) (ho : ¬ o.Entwines d) :
    (o.apply d).WellFormed := by
  cases o with
  | createElement tag => exact h.insert _
  | createText content => exact h.insert _
  | append parent child =>
    by_cases hpath : d.Within parent child
    · rw [apply, append_of_refused fun hok => ho ⟨hok, hpath⟩]
      exact h
    · exact h.append hpath
  | replace old new => exact h.replace ho
  | remove n => exact h.remove n
  | setAttribute n name value => exact h.editElement n _
  | removeAttribute n name => exact h.editElement n _
  | addClass n name => exact h.editElement n _
  | setStyle n property value => exact h.editElement n _
  | addListener n event listener => exact h.addListener n event listener

end Operation

/-- Markup was read, or none, and then operations were done. -/
inductive Reachable : Document L → Prop
  | empty : Reachable empty
  | load {source : String} {d : Document L} (h : load source = .ok d) : Reachable d
  | operation {d : Document L} (h : Reachable d) (o : Operation L) (ho : ¬ o.Entwines d) :
    Reachable (o.apply d)

/-- Every document that is reached is well formed. -/
theorem Reachable.wellFormed (h : d.Reachable) : d.WellFormed := by
  induction h with
  | empty => exact wellFormed_void.insert _
  | load h =>
    obtain ⟨t, hgrown⟩ := grown_of_load h
    exact hgrown.wellFormed
  | operation _ o ho ih => exact o.wellFormed_apply ih ho

/-- In every document that is reached:
the free list names each empty slot once and nothing else;
every child of a live node is live and names that node as its parent;
every live node with a parent is listed once by that parent and by no other node;
ids of children and parents carry the generation of their slot, which holds a node;
no node lies below itself;
and texts have neither children nor listeners. -/
theorem Reachable.links_agree (h : d.Reachable) :
    (d.free.Nodup ∧ ∀ index, index ∈ d.free ↔ ∃ slot, d.slots[index]? = some slot ∧ slot.node = none) ∧
      (∀ n node, d.node? n = some node → ∀ c ∈ node.children,
        ∃ child, d.node? c = some child ∧ child.parent = some n) ∧
      (∀ n node p, d.node? n = some node → node.parent = some p →
        (d.children p).count n = 1 ∧ ∀ q, n ∈ d.children q → q = p) ∧
      (∀ n node, d.node? n = some node → ∀ m, m ∈ node.children ∨ node.parent = some m →
        ∃ linked, d.slots[m.index]? = some ⟨m.generation, some linked⟩) ∧
      (∀ n, ¬ Relation.TransGen (fun c p => d.parent? c = some p) n n) ∧
      ∀ n node content, d.node? n = some node → node.data = .text content →
        node.children = [] ∧ node.listeners = [] := by
  have hwf := h.wellFormed
  have hchild {n : NodeId} {node : Node L} (hn : d.node? n = some node) {c : NodeId}
      (hc : c ∈ node.children) : d.parent? c = some n :=
    hwf.linked.parent_of_mem (by rwa [children_of_node? hn])
  refine ⟨⟨hwf.freeList.nodup, fun index => ?_⟩, ?_, ?_, ?_, hwf.linked.acyclic, ?_⟩
  · rw [hwf.freeList.mem_iff]
    constructor
    · intro h
      obtain ⟨generation, hslot⟩ := h
      exact ⟨_, hslot, rfl⟩
    · intro h
      obtain ⟨⟨generation, content⟩, hslot, hempty⟩ := h
      subst hempty
      exact ⟨generation, hslot⟩
  · intro n node hn c hc
    obtain ⟨child, hlive⟩ := node?_of_parent (hchild hn hc)
    exact ⟨child, hlive, by rw [← parent?_of_node? hlive, hchild hn hc]⟩
  · intro n node p hn hp
    rw [← parent?_of_node? hn] at hp
    refine ⟨List.count_eq_one_of_mem (hwf.linked.nodup p) (hwf.linked.mem_of_parent hp), fun q hq => ?_⟩
    exact Option.some.inj ((hwf.linked.parent_of_mem hq).symm.trans hp)
  · intro n node hn m hm
    rcases hm with hm | hm
    · obtain ⟨child, hlive⟩ := node?_of_parent (hchild hn hm)
      exact ⟨child, node?_eq_some_iff.mp hlive⟩
    · obtain ⟨above, hlive⟩ := hwf.linked.node?_of_parent ((parent?_of_node? hn).trans hm)
      exact ⟨above, node?_eq_some_iff.mp hlive⟩
  · intro n node content hn hdata
    exact hwf.text_bare hn hdata

/-- A document in which a tree was freed and one of its slots used again. -/
def reused : Document Unit :=
  let d := Operation.apply empty (.createElement "p")
  let d := Operation.apply d (.createText "old")
  let d := Operation.apply d (.append ⟨1, 0⟩ ⟨2, 0⟩)
  let d := Operation.apply d (.append ⟨0, 0⟩ ⟨1, 0⟩)
  let d := Operation.apply d (.remove ⟨1, 0⟩)
  let d := Operation.apply d (.createText "new")
  Operation.apply d (.append ⟨0, 0⟩ ⟨1, 1⟩)

/-- In the document with a slot used again, the new node is listed once by its parent. -/
theorem links_agree_reused : reused.Reachable ∧ (reused.children ⟨0, 0⟩).count ⟨1, 1⟩ = 1 := by
  have hreached : reused.Reachable := by
    refine .operation (.operation (.operation (.operation (.operation (.operation (.operation .empty
      (.createElement "p") ?_) (.createText "old") ?_) (.append ⟨1, 0⟩ ⟨2, 0⟩) ?_)
      (.append ⟨0, 0⟩ ⟨1, 0⟩) ?_) (.remove ⟨1, 0⟩) ?_) (.createText "new") ?_)
      (.append ⟨0, 0⟩ ⟨1, 1⟩) ?_
    · exact id
    · exact id
    · exact Operation.not_entwines_append rfl (by decide)
    · exact Operation.not_entwines_append rfl (by decide)
    · exact id
    · exact id
    · exact Operation.not_entwines_append rfl (by decide)
  obtain ⟨_, _, hlisted, _⟩ := hreached.links_agree
  exact ⟨hreached, (hlisted ⟨1, 1⟩ ⟨some ⟨0, 0⟩, [], .text "new", []⟩ ⟨0, 0⟩ rfl rfl).1⟩

end ReactiveTemplate.Document
