import ReactiveTemplate.Proofs.Document.Contents

/-!
# Listeners that a document carries

Listeners come to nodes by being added; no other operation makes one. So whatever is true of the listeners
of a document stays true, whether its links are in order or not. Nor does a listener ever go to another node.
-/

namespace ReactiveTemplate.Document

variable {L : Type} {d : Document L} {P : L → Prop}

/-- Every listener of a node. -/
def Carries (d : Document L) (P : L → Prop) : Prop :=
  ∀ slot ∈ d.slots, ∀ node, slot.node = some node → ∀ entry ∈ node.listeners, P entry.2

namespace Carries

/-- Less may be said of the listeners. -/
theorem mono {Q : L → Prop} (h : d.Carries P) (hPQ : ∀ {listener}, P listener → Q listener) : d.Carries Q :=
  fun slot hslot node hnode entry hentry => hPQ (h slot hslot node hnode entry hentry)

/-- It is true of all nodes that they carry no other listeners. -/
theorem throughout (h : d.Carries P) : d.Throughout fun _ listeners => ∀ entry ∈ listeners, P entry.2 :=
  h

/-- If it is true of all nodes, it is true of the document. -/
theorem of_throughout (h : d.Throughout fun _ listeners => ∀ entry ∈ listeners, P entry.2) : d.Carries P :=
  h

/-- The listeners of a live node. -/
theorem of_node? (h : d.Carries P) {n : NodeId} {node : Node L} (hn : d.node? n = some node) :
    ∀ entry ∈ node.listeners, P entry.2 :=
  h.throughout.of_node? hn

/-- The listeners that an event reaches. -/
theorem listenersFor (h : d.Carries P) (n : NodeId) (event : String) :
    ∀ listener ∈ d.listenersFor n event, P listener := by
  intro listener hmem
  rw [Document.listenersFor, List.mem_flatMap] at hmem
  obtain ⟨m, _, hat⟩ := hmem
  rw [listenersAt] at hat
  split at hat
  · next node hnode =>
    obtain ⟨entry, hentry, rfl⟩ := List.mem_map.mp hat
    exact h.of_node? hnode entry (List.mem_of_mem_filter hentry)
  · cases hat

/-- A node is put in. -/
theorem insert (h : d.Carries P) (data : NodeData) : (d.insert data).2.Carries P :=
  Throughout.insert h.throughout fun _ hentry => absurd hentry List.not_mem_nil

/-- The document without markup has no listeners. -/
theorem empty : (Document.empty : Document L).Carries P :=
  of_throughout (.empty fun _ hentry => absurd hentry List.not_mem_nil)

/-- The data of an element are edited. -/
theorem editElement (h : d.Carries P) (n : NodeId) (f : Element → Element) : (d.editElement n f).2.Carries P :=
  h.throughout.editElement n fun _ _ hnode => hnode

/-- A listener is added. -/
theorem addListener (h : d.Carries P) (n : NodeId) (event : String) {listener : L} (hlistener : P listener) :
    (d.addListener n event listener).2.Carries P := by
  refine h.throughout.addListener n fun _ listeners hlisteners entry hentry => ?_
  rcases List.mem_append.mp hentry with hold | hnew
  · exact hlisteners entry hold
  · rw [List.mem_singleton.mp hnew]
    exact hlistener

/-- A node is appended. -/
theorem append (h : d.Carries P) (parent child : NodeId) : (d.append parent child).2.Carries P :=
  h.throughout.append parent child

/-- A node is removed. -/
theorem remove (h : d.Carries P) (n : NodeId) : (d.remove n).2.Carries P :=
  h.throughout.remove n

/-- A node is replaced. -/
theorem replace (h : d.Carries P) (old new : NodeId) : (d.replace old new).2.Carries P :=
  h.throughout.replace old new

/-- A document that was read from markup has no listeners. -/
theorem of_load {source : String} (h : load source = .ok d) : d.Carries P := by
  have hnone : ∀ entry ∈ ([] : List (String × L)), P entry.2 := fun _ hentry => absurd hentry List.not_mem_nil
  exact of_throughout (.of_load h hnone (fun _ => hnone) fun _ _ _ => hnone)

end Carries

/-- The listener that an operation adds. -/
def Operation.listener? : Operation L → Option L
  | addListener _ _ listener => some listener
  | _ => none

/-- An operation is done, and nothing else is true of the listener that it adds. -/
theorem Carries.operation (h : d.Carries P) (o : Operation L) (ho : ∀ listener ∈ o.listener?, P listener) :
    (o.apply d).Carries P := by
  cases o with
  | createElement | createText => exact h.insert _
  | append parent child => exact h.append parent child
  | replace old new => exact h.replace old new
  | remove n => exact h.remove n
  | setAttribute n | removeAttribute n | addClass n | setStyle n => exact h.editElement n _
  | addListener n event listener => exact h.addListener n event (ho listener rfl)

/-- A listener that is added gets its place behind those that its node has for the event. -/
theorem listenersAt_addListener {n : NodeId} {event : String} {listener : L}
    (hdone : (d.addListener n event listener).1 = .ok ()) (m : NodeId) (name : String) :
    (d.addListener n event listener).2.listenersAt m name =
      d.listenersAt m name ++ if m = n ∧ name = event then [listener] else [] := by
  rw [addListener, onElement] at hdone ⊢
  split at hdone
  · cases hdone
  · next node hn =>
    split at hdone
    · next e he =>
      rw [listenersAt, node?_modify, hn, listenersAt]
      by_cases hm : m = n
      · by_cases hname : name = event
        · simp [hm, hname, hn]
        · simp [hm, hname, hn, Ne.symm hname]
      · simp [hm]
    · cases hdone

/-! ### Listeners stay where they are -/

/-- Every listener of a node in the second document is one that the node had in the first, or something is true
of it. -/
def Inherits (d d' : Document L) (P : L → Prop) : Prop :=
  ∀ n node', d'.node? n = some node' → ∀ entry ∈ node'.listeners,
    P entry.2 ∨ ∃ node, d.node? n = some node ∧ entry ∈ node.listeners

namespace Inherits

variable {d' : Document L}

/-- Nothing is done. -/
theorem refl (d : Document L) : d.Inherits d P :=
  fun _ node hnode _ hentry => Or.inr ⟨node, hnode, hentry⟩

/-- A node is put in. -/
theorem insert (h : d.Inherits d' P) (hd' : d'.FreeList) (data : NodeData) : d.Inherits (d'.insert data).2 P := by
  intro n node' hnode' entry hentry
  rw [(node?_insert hd' data).2] at hnode'
  split at hnode'
  · cases hnode'
    cases hentry
  · exact h n node' hnode' entry hentry

/-- A node is changed. -/
theorem modify (h : d.Inherits d' P) (m : NodeId) {f : Node L → Node L}
    (hf : ∀ node, ∀ entry ∈ (f node).listeners, P entry.2 ∨ entry ∈ node.listeners) :
    d.Inherits (d'.modify m f) P := by
  intro n node' hnode' entry hentry
  rw [node?_modify] at hnode'
  split at hnode'
  · next heq =>
    obtain ⟨node, hnode, rfl⟩ := Option.map_eq_some_iff.mp hnode'
    exact (hf node entry hentry).elim Or.inl fun hold => h n node (heq ▸ hnode) entry hold
  · exact h n node' hnode' entry hentry

/-- A slot is emptied. -/
theorem release (h : d.Inherits d' P) (m : NodeId) : d.Inherits (d'.release m) P := by
  intro n node' hnode'
  rw [node?_release] at hnode'
  split at hnode'
  · cases hnode'
  · exact h n node' hnode'

/-- Where listeners are does not depend on links. -/
theorem stable (d : Document L) (P : L → Prop) : Stable fun d' => d.Inherits d' P where
  relinked h n _ hf := h.modify n fun node _ hentry => Or.inr ((hf node).2 ▸ hentry)
  release h n := h.release n

/-- An element is changed. -/
theorem onElement (h : d.Inherits d' P) (n : NodeId) {f : Node L → Element → Node L}
    (hf : ∀ node e, ∀ entry ∈ (f node e).listeners, P entry.2 ∨ entry ∈ node.listeners) :
    d.Inherits (d'.onElement n f).2 P := by
  rw [Document.onElement]
  split
  · exact h
  · split
    · exact h.modify n fun node => hf node _
    · exact h

/-- A node is appended. -/
theorem append (h : d.Inherits d' P) (parent child : NodeId) : d.Inherits (d'.append parent child).2 P :=
  (stable d P).append h parent child

/-- A node is removed. -/
theorem remove (h : d.Inherits d' P) (n : NodeId) : d.Inherits (d'.remove n).2 P :=
  (stable d P).remove h n

/-- A node is replaced. -/
theorem replace (h : d.Inherits d' P) (old new : NodeId) : d.Inherits (d'.replace old new).2 P :=
  (stable d P).replace h old new

/-- An operation is done, and something is true of the listener that it adds. -/
theorem operation (h : d.Inherits d' P) (hd' : d'.FreeList) (o : Operation L)
    (ho : ∀ listener ∈ o.listener?, P listener) : d.Inherits (o.apply d') P := by
  cases o with
  | createElement | createText => exact h.insert hd' _
  | append parent child => exact h.append parent child
  | replace old new => exact h.replace old new
  | remove n => exact h.remove n
  | setAttribute n | removeAttribute n | addClass n | setStyle n =>
    exact h.onElement n fun _ _ _ hentry => Or.inr hentry
  | addListener n event listener =>
    refine h.onElement n fun node _ entry hentry => ?_
    rcases List.mem_append.mp hentry with hold | hnew
    · exact Or.inr hold
    · rw [List.mem_singleton.mp hnew]
      exact Or.inl (ho listener rfl)

end Inherits

end ReactiveTemplate.Document
