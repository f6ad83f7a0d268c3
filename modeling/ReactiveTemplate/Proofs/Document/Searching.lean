import ReactiveTemplate.Document.Selector
import ReactiveTemplate.Proofs.Document.Contents
import ReactiveTemplate.Proofs.Document.Counting

/-!
# Searching the tree

A node is attached if the body is reached upwards from it, along parents. A search goes downwards from the body,
along children. In documents that are reached both see the same nodes: those of the one walk that starts at the
body and takes each node before those below it.
-/

namespace ReactiveTemplate

variable {L : Type} {d : Document L}

/-! ### Walks -/

namespace Document

mutual

/-- A walk of the nodes below a node: the node itself, then walks of its children one after another. -/
inductive Walk (d : Document L) : NodeId → List NodeId → Prop where
  | node {n : NodeId} {below : List NodeId} (h : WalkAll d (d.children n) below) : Walk d n (n :: below)

/-- Walks of some nodes one after another. -/
inductive WalkAll (d : Document L) : List NodeId → List NodeId → Prop where
  | nil : WalkAll d [] []
  | cons {n : NodeId} {rest first more : List NodeId} (h : Walk d n first) (hrest : WalkAll d rest more) :
    WalkAll d (n :: rest) (first ++ more)

end

mutual

/-- A node has one walk. -/
theorem Walk.unique {n : NodeId} {walk other : List NodeId} (h : d.Walk n walk) (h' : d.Walk n other) :
    walk = other := by
  match h, h' with
  | .node h, .node h' => rw [h.unique h']

/-- Some nodes have one walk. -/
theorem WalkAll.unique {ns walk other : List NodeId} (h : d.WalkAll ns walk) (h' : d.WalkAll ns other) :
    walk = other := by
  match h, h' with
  | .nil, .nil => rfl
  | .cons h hrest, .cons h' hrest' => rw [h.unique h', hrest.unique hrest']

end

end Document

namespace Subtree

mutual

/-- The ids in a tree, each before those below it. -/
def preorder : Subtree → List NodeId
  | element n _ _ children => n :: preorderList children
  | text n _ => [n]

/-- The ids in some trees. -/
def preorderList : List Subtree → List NodeId
  | [] => []
  | t :: ts => preorder t ++ preorderList ts

end

mutual

/-- Both orders list the same ids. -/
theorem mem_preorder (n : NodeId) (t : Subtree) : n ∈ t.preorder ↔ n ∈ t.ids := by
  cases t with
  | element m e events children =>
    rw [preorder, ids, List.mem_cons, List.mem_append, List.mem_singleton, mem_preorderList, or_comm]
  | text m content => rw [preorder, ids]

/-- Both orders list the same ids of some trees. -/
theorem mem_preorderList (n : NodeId) (ts : List Subtree) : n ∈ preorderList ts ↔ n ∈ idsList ts := by
  cases ts with
  | nil => rfl
  | cons t ts => rw [preorderList, idsList, List.mem_append, List.mem_append, mem_preorder, mem_preorderList]

end

end Subtree

namespace Document

mutual

/-- The ids of the tree below a node are its walk. -/
theorem Holds.walk {t : Subtree} (h : d.Holds t) : d.Walk t.id t.preorder := by
  cases t with
  | element n e events children =>
    obtain ⟨⟨parent, listeners, hn, _⟩, hchildren⟩ := h
    refine .node ?_
    rw [Subtree.id, children_of_node? hn]
    exact HoldsAll.walk hchildren
  | text n content =>
    obtain ⟨parent, listeners, hn⟩ := h
    refine .node ?_
    rw [Subtree.id, children_of_node? hn]
    exact .nil

/-- The ids of some trees are the walks of their nodes. -/
theorem HoldsAll.walk {ts : List Subtree} (h : d.HoldsAll ts) :
    d.WalkAll (ts.map Subtree.id) (Subtree.preorderList ts) := by
  cases ts with
  | nil => exact .nil
  | cons t ts => exact .cons h.1.walk h.2.walk

end

/-- The element of an id with the id, as a search finds it. -/
def found? (d : Document L) (n : NodeId) : Option (NodeId × Element) :=
  (d.element? n).map fun e => (n, e)

mutual

/-- The elements of a tree are those on its walk. -/
theorem Holds.elements_eq {t : Subtree} (h : d.Holds t) : t.elements = t.preorder.filterMap d.found? := by
  cases t with
  | element n e events children =>
    obtain ⟨⟨parent, listeners, hn, _⟩, hchildren⟩ := h
    have hfound : d.found? n = some (n, e) := by
      simp only [found?, element?, hn, Option.map_some]
    rw [Subtree.elements, Subtree.preorder, List.filterMap_cons_some hfound, HoldsAll.elements_eq hchildren]
  | text n content =>
    obtain ⟨parent, listeners, hn⟩ := h
    have hfound : d.found? n = none := by
      simp only [found?, element?, hn, Option.map_some, Option.map_none]
    rw [Subtree.elements, Subtree.preorder, List.filterMap_cons_none hfound, List.filterMap_nil]

/-- The elements of some trees are those on their walks. -/
theorem HoldsAll.elements_eq {ts : List Subtree} (h : d.HoldsAll ts) :
    Subtree.elementsList ts = (Subtree.preorderList ts).filterMap d.found? := by
  cases ts with
  | nil => rfl
  | cons t ts =>
    rw [Subtree.elementsList, Subtree.preorderList, List.filterMap_append, h.1.elements_eq, h.2.elements_eq]

end

/-- A search finds the first element on the walk that is selected. -/
theorem query?_eq_find? (hd : d.Linked) {t : Subtree} (h : d.Holds t) (hbody : t.id = d.body) (text : String) :
    d.query? text = t.preorder.find? fun n => (d.element? n).any (Selector.ofText text).selects := by
  have hselect (n : NodeId) : ((d.found? n).any fun entry => (Selector.ofText text).selects entry.2) =
      (d.element? n).any (Selector.ofText text).selects := by
    rw [found?]
    cases d.element? n <;> rfl
  rw [query?, ← hbody, h.subtree? hd, Option.bind_eq_bind, Option.bind_some, h.elements_eq, List.find?_filterMap]
  simp only [hselect]
  cases hfind : t.preorder.find? fun n => (d.element? n).any (Selector.ofText text).selects with
  | none => rfl
  | some n =>
    have hsome := List.find?_some hfind
    cases he : d.element? n with
    | none => simp [he] at hsome
    | some e => simp [found?, he]

end Document

/-! ### What selectors mean -/

/-- An element is meant by a selector, blanks at whose ends do not matter: it has the id after `#`, or the class
after `.`, or else the tag up to letter case. -/
inductive Element.Meant (text : String) (e : Element) : Prop where
  | id (value : String) (htext : Text.trimmed text = "#" ++ value) (h : e.attribute? "id" = some value)
  | cls (name : String) (htext : Text.trimmed text = "." ++ name) (h : name ∈ e.classes)
  | tag (hid : ∀ value, Text.trimmed text ≠ "#" ++ value) (hcls : ∀ name, Text.trimmed text ≠ "." ++ name)
    (h : Markup.lowercase e.tag = Markup.lowercase (Text.trimmed text))

/-- What a text begins with when the blanks at its ends are left out. -/
theorem Text.trimmed_eq_iff {text value : String} {c : Char} :
    trimmed text = String.ofList [c] ++ value ↔ trim text.toList = c :: value.toList := by
  rw [trimmed, ← String.toList_inj]
  simp

/-- A selector selects the elements that it means, if their tags are in lowercase. -/
theorem Selector.selects_iff {text : String} {e : Element} (htag : Markup.IsLowercase e.tag) :
    (ofText text).selects e = true ↔ e.Meant text := by
  have hhash (value : String) : Text.trimmed text = "#" ++ value ↔ Text.trim text.toList = '#' :: value.toList :=
    Text.trimmed_eq_iff
  have hdot (name : String) : Text.trimmed text = "." ++ name ↔ Text.trim text.toList = '.' :: name.toList :=
    Text.trimmed_eq_iff
  have hid (value : String) : e.attribute? "id" = some value ↔ e.attributes.lookup "id" = some value := by
    simp [Element.attribute?]
  rw [ofText]
  split
  · next rest htrim =>
    rw [selects, beq_iff_eq, ← hid]
    refine ⟨fun h => .id _ ((hhash _).mpr (by rw [htrim, String.toList_ofList])) h, fun h => ?_⟩
    cases h with
    | id value htext h =>
      rw [hhash, htrim, List.cons.injEq] at htext
      rw [htext.2, String.ofList_toList]
      exact h
    | cls name htext h =>
      rw [hdot, htrim] at htext
      cases htext
    | tag hnot _ h => exact absurd ((hhash _).mpr (by rw [htrim, String.toList_ofList])) (hnot (String.ofList rest))
  · next rest htrim =>
    rw [selects, List.contains_iff_mem]
    refine ⟨fun h => .cls _ ((hdot _).mpr (by rw [htrim, String.toList_ofList])) h, fun h => ?_⟩
    cases h with
    | id value htext h =>
      rw [hhash, htrim] at htext
      cases htext
    | cls name htext h =>
      rw [hdot, htrim, List.cons.injEq] at htext
      rw [htext.2, String.ofList_toList]
      exact h
    | tag _ hnot h => exact absurd ((hdot _).mpr (by rw [htrim, String.toList_ofList])) (hnot (String.ofList rest))
  · next hnothash hnotdot =>
    rw [selects, beq_iff_eq]
    have hneHash (value : String) : Text.trimmed text ≠ "#" ++ value := fun h => hnothash _ ((hhash value).mp h)
    have hneDot (name : String) : Text.trimmed text ≠ "." ++ name := fun h => hnotdot _ ((hdot name).mp h)
    refine ⟨fun h => .tag hneHash hneDot ?_, fun h => ?_⟩
    · rw [htag, h]
      rfl
    · cases h with
      | id value htext h => exact absurd htext (hneHash value)
      | cls name htext h => exact absurd htext (hneDot name)
      | tag _ _ h =>
        rw [htag] at h
        exact h

namespace Element

variable {e : Element}

/-- Setting an attribute leaves the tag as it is. -/
theorem tag_setAttribute (name value : String) (e : Element) : (e.setAttribute name value).tag = e.tag := by
  rw [setAttribute]
  dsimp only
  split
  · rfl
  · split <;> rfl

/-- Removing an attribute leaves the tag as it is. -/
theorem tag_removeAttribute (name : String) (e : Element) : (e.removeAttribute name).tag = e.tag := by
  rw [removeAttribute]
  dsimp only
  split
  · rfl
  · split <;> rfl

/-- Setting a style leaves the tag as it is. -/
theorem tag_setStyle (property : String) (value : Option String) (e : Element) :
    (e.setStyle property value).tag = e.tag := by
  cases value <;> rfl

/-- An element of markup has its tag. -/
theorem tag_ofMarkup (tag : String) (attributes : List (String × String)) : (ofMarkup tag attributes).tag = tag := by
  rw [ofMarkup]
  generalize hstart : ofTag tag = start
  have htag : start.tag = tag := by rw [← hstart, ofTag]
  clear hstart
  induction attributes generalizing start with
  | nil => exact htag
  | cons entry rest ih => exact ih _ ((tag_setAttribute _ _ _).trans htag)

end Element

namespace Document

/-- In a document that is reached all tags are in lowercase. -/
theorem Reachable.lowercase (h : d.Reachable) : d.EveryElement fun e => Markup.IsLowercase e.tag := by
  have hbody : Markup.lowercase "body" = "body" := by decide
  induction h with
  | empty => exact .empty hbody
  | load h =>
    refine .of_load h hbody fun tag attributes htag => ?_
    rwa [Element.tag_ofMarkup]
  | operation _ o _ ih =>
    refine ih.operation o Markup.isLowercase_lowercase fun f hf e he => ?_
    cases o with
    | setAttribute n name value =>
      cases hf
      rwa [Element.tag_setAttribute]
    | removeAttribute n name =>
      cases hf
      rwa [Element.tag_removeAttribute]
    | addClass n name =>
      cases hf
      exact he
    | setStyle n property value =>
      cases hf
      rwa [Element.tag_setStyle]
    | _ => cases hf

/-- Of a document that is reached and whose body is live the views upwards and downwards agree. There is one walk
from the body: the nodes on it are those that are attached. A search gives the first element on the walk that the
selector means, and nothing exactly if it means no attached element. -/
theorem Reachable.walk_of_body (h : d.Reachable) (hbody : d.contains d.body = true) :
    ∃ walk, d.Walk d.body walk ∧ (∀ other, d.Walk d.body other → other = walk) ∧
      (∀ n, d.isAttached n = true ↔ n ∈ walk) ∧
      ∀ text,
        (∀ n, d.query? text = some n ↔ ∃ before after e, walk = before ++ n :: after ∧
          d.element? n = some e ∧ e.Meant text ∧ ∀ m ∈ before, ∀ e, d.element? m = some e → ¬ e.Meant text) ∧
        (d.query? text = none ↔ ∀ n e, d.isAttached n = true → d.element? n = some e → ¬ e.Meant text) := by
  obtain ⟨node, hnode⟩ := Option.isSome_iff_exists.mp hbody
  have hlinked := h.wellFormed.linked
  obtain ⟨t, hid, ht⟩ := h.wellFormed.exists_holds hnode
  have hattached (n : NodeId) : d.isAttached n = true ↔ n ∈ t.preorder := by
    rw [hlinked.isAttached_iff, ← hid, ← ht.mem_ids_iff hlinked, Subtree.mem_preorder]
  have hwalk := ht.walk
  rw [hid] at hwalk
  refine ⟨t.preorder, hwalk, fun other hother => hother.unique hwalk, hattached, fun text => ?_⟩
  have hselected (n : NodeId) : (d.element? n).any (Selector.ofText text).selects = true ↔
      ∃ e, d.element? n = some e ∧ e.Meant text := by
    rw [Option.any_eq_true]
    exact exists_congr fun e => and_congr_right fun he => Selector.selects_iff (h.lowercase.of_element? he)
  rw [query?_eq_find? hlinked ht hid]
  constructor
  · intro n
    rw [List.find?_eq_some_iff_append]
    constructor
    · rintro ⟨hn, before, after, hsplit, hbefore⟩
      obtain ⟨e, he, hmeant⟩ := (hselected n).mp hn
      refine ⟨before, after, e, hsplit, he, hmeant, fun m hm other hother hearlier => ?_⟩
      have hpassed := hbefore m hm
      rw [(hselected m).mpr ⟨other, hother, hearlier⟩] at hpassed
      cases hpassed
    · rintro ⟨before, after, e, hsplit, he, hmeant, hbefore⟩
      refine ⟨(hselected n).mpr ⟨e, he, hmeant⟩, before, after, hsplit, fun m hm => ?_⟩
      rw [Bool.not_eq_true', ← Bool.not_eq_true, hselected]
      rintro ⟨other, hother, hearlier⟩
      exact hbefore m hm other hother hearlier
  · rw [List.find?_eq_none]
    constructor
    · intro hnone n e hn he hmeant
      exact hnone n ((hattached n).mp hn) ((hselected n).mpr ⟨e, he, hmeant⟩)
    · intro hnone n hn hselect
      obtain ⟨e, he, hmeant⟩ := (hselected n).mp hselect
      exact hnone n e ((hattached n).mpr hn) he hmeant

/-- A document with one element in the tree and another beside it. -/
def beside : Document Unit :=
  let d := Operation.apply empty (.createElement "P")
  let d := Operation.apply d (.createElement "p")
  Operation.apply d (.append ⟨0, 0⟩ ⟨1, 0⟩)

/-- The walk of a document with an element beside the tree passes the element in the tree, which a search finds, and
not the other. -/
theorem Reachable.walk_of_body_beside : beside.Reachable ∧ beside.contains beside.body = true ∧
    ∃ walk, beside.Walk beside.body walk ∧ ⟨1, 0⟩ ∈ walk ∧ ⟨2, 0⟩ ∉ walk ∧
      ∃ before after, walk = before ++ ⟨1, 0⟩ :: after := by
  have hreached : beside.Reachable := by
    refine .operation (.operation (.operation .empty (.createElement "P") ?_) (.createElement "p") ?_)
      (.append ⟨0, 0⟩ ⟨1, 0⟩) ?_
    · exact id
    · exact id
    · exact Operation.not_entwines_append rfl (by decide)
  have hbody : beside.contains beside.body = true := by decide
  obtain ⟨walk, hwalk, _, hattached, hsearch⟩ := hreached.walk_of_body hbody
  obtain ⟨before, after, _, hsplit, _⟩ := ((hsearch " p ").1 ⟨1, 0⟩).mp (by decide +kernel)
  refine ⟨hreached, hbody, walk, hwalk, (hattached _).mp (by decide), fun hmem => ?_, before, after, hsplit⟩
  exact absurd ((hattached _).mpr hmem) (by decide)

end Document

end ReactiveTemplate
