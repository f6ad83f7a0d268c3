import ReactiveTemplate.Proofs.Document.Reachable
import ReactiveTemplate.Proofs.Markup.Tags

/-!
# What is true of all nodes

Operations put nodes in, change what they are, add listeners, link nodes otherwise and empty slots. Whatever
does not depend on links is true of all nodes as long as it is true of what is put in and stays true of what is
changed.
-/

namespace ReactiveTemplate.Document

variable {L : Type} {d : Document L} {P : NodeData → List (String × L) → Prop}

/-- Something is true of all nodes, of what they are and of the listeners that they carry. -/
def Throughout (d : Document L) (P : NodeData → List (String × L) → Prop) : Prop :=
  ∀ slot ∈ d.slots, ∀ node, slot.node = some node → P node.data node.listeners

namespace Throughout

/-- A live node. -/
theorem of_node? (h : d.Throughout P) {n : NodeId} {node : Node L} (hn : d.node? n = some node) :
    P node.data node.listeners :=
  h _ (Array.mem_of_getElem? (node?_eq_some_iff.mp hn)) node rfl

/-- One slot is written. -/
theorem set (h : d.Throughout P) (i : Nat) {slot : Slot L} (free : List Nat) (body : NodeId)
    (hslot : ∀ node, slot.node = some node → P node.data node.listeners) :
    Throughout ⟨d.slots.setIfInBounds i slot, free, body⟩ P := by
  intro other hother node hnode
  rcases Array.mem_or_eq_of_mem_setIfInBounds hother with hold | rfl
  · exact h other hold node hnode
  · exact hslot node hnode

/-- A node is put in. -/
theorem insert (h : d.Throughout P) {data : NodeData} (hdata : P data []) : (d.insert data).2.Throughout P := by
  have hbare (generation : Nat) (node : Node L)
      (hnode : (⟨generation, some ⟨none, [], data, []⟩⟩ : Slot L).node = some node) :
      P node.data node.listeners := by
    cases hnode
    exact hdata
  rw [Document.insert]
  split
  · exact h.set _ _ _ (hbare _)
  · intro slot hslot node hnode
    rcases Array.mem_push.mp hslot with hold | rfl
    · exact h slot hold node hnode
    · exact hbare _ node hnode

/-- The document without markup is one element. -/
theorem empty (hbody : P (.element (.ofTag "body")) []) : (Document.empty : Document L).Throughout P :=
  insert (d := void) (fun _ hslot => absurd hslot (Array.not_mem_empty _)) hbody

/-- A node is changed. -/
theorem modify (h : d.Throughout P) (n : NodeId) {f : Node L → Node L}
    (hf : ∀ node, d.node? n = some node → P node.data node.listeners → P (f node).data (f node).listeners) :
    (d.modify n f).Throughout P := by
  rw [Document.modify]
  split
  · next node hnode =>
    refine h.set _ _ _ fun after hafter => ?_
    cases hafter
    exact hf node hnode (h.of_node? hnode)
  · exact h

/-- A slot is emptied. -/
theorem release (h : d.Throughout P) (n : NodeId) : (d.release n).Throughout P := by
  rw [Document.release]
  split
  · exact h.set _ _ _ fun node hnode => by cases hnode
  · exact h

/-- What is true of all nodes does not depend on links. -/
theorem stable (P : NodeData → List (String × L) → Prop) : Stable fun d : Document L => d.Throughout P where
  relinked h n _ hf := h.modify n fun node _ hnode => by rwa [(hf node).1, (hf node).2]
  release h n := h.release n

/-- An element is changed. -/
theorem onElement (h : d.Throughout P) (n : NodeId) {f : Node L → Element → Node L}
    (hf : ∀ node e, node.data = .element e → P node.data node.listeners → P (f node e).data (f node e).listeners) :
    (d.onElement n f).2.Throughout P := by
  rw [Document.onElement]
  split
  · exact h
  · next node hnode =>
    split
    · next e hdata =>
      refine h.modify n fun live hlive => hf live e ?_
      rw [hnode, Option.some.injEq] at hlive
      rwa [← hlive]
    · exact h

/-- The data of an element are edited. -/
theorem editElement (h : d.Throughout P) (n : NodeId) {f : Element → Element}
    (hf : ∀ e listeners, P (.element e) listeners → P (.element (f e)) listeners) :
    (d.editElement n f).2.Throughout P := by
  refine h.onElement n fun node e hdata hnode => hf e node.listeners ?_
  rwa [← hdata]

/-- A listener is added. -/
theorem addListener (h : d.Throughout P) (n : NodeId) {event : String} {listener : L}
    (hlistener : ∀ data listeners, P data listeners → P data (listeners ++ [(event, listener)])) :
    (d.addListener n event listener).2.Throughout P :=
  h.onElement n fun _ _ _ hnode => hlistener _ _ hnode

/-- A node is appended. -/
theorem append (h : d.Throughout P) (parent child : NodeId) : (d.append parent child).2.Throughout P :=
  (stable P).append h parent child

/-- A node is removed. -/
theorem remove (h : d.Throughout P) (n : NodeId) : (d.remove n).2.Throughout P :=
  (stable P).remove h n

/-- A node is replaced. -/
theorem replace (h : d.Throughout P) (old new : NodeId) : (d.replace old new).2.Throughout P :=
  (stable P).replace h old new

mutual

/-- A piece of markup is put in. -/
theorem build {d : Document L} (h : d.Throughout P) (htext : ∀ content, P (.text content) [])
    (helement : ∀ tag attributes, Markup.IsLowercase tag → P (.element (.ofMarkup tag attributes)) [])
    {piece : Markup} (hpiece : piece.Tagged) : (d.build piece).2.Throughout P := by
  match hpiece with
  | .text content => exact h.insert (htext content)
  | .element attributes htag hchildren =>
    exact (h.insert (helement _ attributes htag)).buildInto htext helement _ hchildren

/-- Pieces of markup are put into an element. -/
theorem buildInto {d : Document L} (h : d.Throughout P) (htext : ∀ content, P (.text content) [])
    (helement : ∀ tag attributes, Markup.IsLowercase tag → P (.element (.ofMarkup tag attributes)) [])
    (parent : NodeId) {pieces : List Markup} (hpieces : ∀ piece ∈ pieces, piece.Tagged) :
    (d.buildInto parent pieces).Throughout P := by
  match pieces with
  | [] => exact h
  | piece :: rest =>
    have hfirst := h.build htext helement (hpieces piece List.mem_cons_self)
    exact (hfirst.append _ _).buildInto htext helement parent fun other hother =>
      hpieces other (List.mem_cons_of_mem _ hother)

end

/-- A document was read from markup. -/
theorem of_load {source : String} (h : load source = .ok d) (hbody : P (.element (.ofTag "body")) [])
    (htext : ∀ content, P (.text content) [])
    (helement : ∀ tag attributes, Markup.IsLowercase tag → P (.element (.ofMarkup tag attributes)) []) :
    d.Throughout P := by
  obtain ⟨pieces, hread, heq⟩ := ok_of_bind h
  cases heq
  exact (empty hbody).buildInto htext helement _ (Markup.tagged_of_read hread)

end Throughout

/-! ### Elements -/

/-- Something is true of all elements. -/
def EveryElement (d : Document L) (Q : Element → Prop) : Prop :=
  d.Throughout fun data _ => ∀ e, data = .element e → Q e

/-- What an operation does to the data of an element. -/
def Operation.edit? : Operation L → Option (Element → Element)
  | setAttribute _ name value => some (·.setAttribute name value)
  | removeAttribute _ name => some (·.removeAttribute name)
  | addClass _ name => some (·.addClass name)
  | setStyle _ property value => some (·.setStyle property value)
  | _ => none

namespace EveryElement

variable {Q : Element → Prop}

/-- An element of the document. -/
theorem of_element? (h : d.EveryElement Q) {n : NodeId} {e : Element} (he : d.element? n = some e) : Q e := by
  rw [element?] at he
  cases hnode : d.node? n with
  | none =>
    rw [hnode] at he
    cases he
  | some node =>
    rw [hnode, Option.map_some] at he
    split at he
    · next hdata =>
      cases he
      exact h.of_node? hnode _ (Option.some.inj hdata)
    · cases he

/-- The document without markup. -/
theorem empty (hbody : Q (.ofTag "body")) : (Document.empty : Document L).EveryElement Q := by
  refine Throughout.empty fun e heq => ?_
  cases heq
  exact hbody

/-- An element is put in. -/
theorem createElement (h : d.EveryElement Q) {tag : String} (hmade : Q (.ofTag (Markup.lowercase tag))) :
    (d.createElement tag).2.EveryElement Q := by
  refine Throughout.insert h fun e heq => ?_
  cases heq
  exact hmade

/-- A text is put in. -/
theorem createText (h : d.EveryElement Q) (content : String) : (d.createText content).2.EveryElement Q :=
  Throughout.insert h fun _ heq => by cases heq

/-- An element is edited. -/
theorem editElement (h : d.EveryElement Q) (n : NodeId) {f : Element → Element} (hf : ∀ e, Q e → Q (f e)) :
    (d.editElement n f).2.EveryElement Q := by
  refine Throughout.editElement h n fun e _ he after heq => ?_
  cases heq
  exact hf e (he e rfl)

/-- A listener is added. -/
theorem addListener (h : d.EveryElement Q) (n : NodeId) (event : String) (listener : L) :
    (d.addListener n event listener).2.EveryElement Q :=
  Throughout.addListener h n fun _ _ hdata => hdata

/-- A node is appended. -/
theorem append (h : d.EveryElement Q) (parent child : NodeId) : (d.append parent child).2.EveryElement Q :=
  Throughout.append h parent child

/-- A node is removed. -/
theorem remove (h : d.EveryElement Q) (n : NodeId) : (d.remove n).2.EveryElement Q :=
  Throughout.remove h n

/-- A document was read from markup. -/
theorem of_load {source : String} (h : load source = .ok d) (hbody : Q (.ofTag "body"))
    (helement : ∀ tag attributes, Markup.IsLowercase tag → Q (.ofMarkup tag attributes)) : d.EveryElement Q := by
  refine Throughout.of_load h (fun e heq => ?_) (fun _ _ heq => ?_) fun tag attributes htag e heq => ?_
  · cases heq
    exact hbody
  · cases heq
  · cases heq
    exact helement tag attributes htag

/-- An operation is done. -/
theorem operation (h : d.EveryElement Q) (o : Operation L) (hmade : ∀ tag, Q (.ofTag (Markup.lowercase tag)))
    (hedit : ∀ f ∈ o.edit?, ∀ e, Q e → Q (f e)) : (o.apply d).EveryElement Q := by
  cases o with
  | createElement tag => exact h.createElement (hmade tag)
  | createText content => exact h.createText content
  | append parent child => exact h.append parent child
  | replace old new => exact Throughout.replace h old new
  | remove n => exact h.remove n
  | setAttribute n | removeAttribute n | addClass n | setStyle n => exact h.editElement n (hedit _ rfl)
  | addListener n event listener => exact h.addListener n event listener

end EveryElement

end ReactiveTemplate.Document
