import Mathlib.Data.Fintype.Card
import Mathlib.Data.Fintype.EquivFin
import Mathlib.Data.List.Nodup
import ReactiveTemplate.Document.Subtree
import ReactiveTemplate.Proofs.Document.WellFormed

/-!
# Trees in documents

`Holds` relates a document to a tree of plain data, node by node. In a well-formed document every live
node has such a tree, its ids are all different, and they are the ids that lie within the node. The
budgets with which documents are read are large enough for it, so what is read off a document is what
is read off the tree.
-/

namespace ReactiveTemplate

open Relation

variable {L : Type} {d d' : Document L}

namespace Subtree

instance : Inhabited Subtree := ⟨.text default ""⟩

/-- To prove something of all trees, prove it of an element from its children, and of a text. -/
@[elab_as_elim]
theorem induction {motive : Subtree → Prop}
    (element : ∀ n e events children, (∀ t ∈ children, motive t) → motive (.element n e events children))
    (text : ∀ n content, motive (.text n content)) (t : Subtree) : motive t :=
  @Subtree.rec motive (fun ts => ∀ t ∈ ts, motive t) element text (fun _ ht => absurd ht List.not_mem_nil)
    (fun _ _ hfirst hrest _ ht => (List.mem_cons.mp ht).elim (fun heq => heq ▸ hfirst) (hrest _)) t

mutual

/-- The ids in a tree, each after those below it. -/
def ids : Subtree → List NodeId
  | element n _ _ children => idsList children ++ [n]
  | text n _ => [n]

/-- The ids in some trees. -/
def idsList : List Subtree → List NodeId
  | [] => []
  | t :: ts => ids t ++ idsList ts

end

/-- The ids in some trees, tree by tree. -/
theorem idsList_eq (ts : List Subtree) : idsList ts = ts.flatMap ids := by
  induction ts with
  | nil => rfl
  | cons t ts ih => rw [idsList, ih, List.flatMap_cons]

/-- An id is in some trees if it is in one of them. -/
theorem mem_idsList {n : NodeId} {ts : List Subtree} : n ∈ idsList ts ↔ ∃ t ∈ ts, n ∈ t.ids := by
  rw [idsList_eq, List.mem_flatMap]

/-- The ids in some trees and then others. -/
theorem idsList_append (ts us : List Subtree) : idsList (ts ++ us) = idsList ts ++ idsList us := by
  simp only [idsList_eq, List.flatMap_append]

/-- The id of a tree is the last in it. -/
theorem id_mem_ids (t : Subtree) : t.id ∈ t.ids := by
  cases t <;> simp [id, ids]

/-- The ids of a child are among those of an element, and fewer. -/
theorem length_ids_lt (n : NodeId) (e : Element) (events : List String) {children : List Subtree}
    {t : Subtree} (ht : t ∈ children) : t.ids.length < (element n e events children).ids.length := by
  have hsub : t.ids.length ≤ (idsList children).length := by
    rw [idsList_eq]
    exact (List.sublist_flatten_of_mem (List.mem_map_of_mem ht)).length_le
  simp only [ids, List.length_append, List.length_singleton]
  omega

end Subtree

namespace Document

mutual

/-- The nodes of a document under the ids of a tree are as the tree says. -/
def Holds (d : Document L) : Subtree → Prop
  | .element n e events children =>
    (∃ parent listeners, d.node? n = some ⟨parent, children.map Subtree.id, .element e, listeners⟩ ∧
      listeners.map Prod.fst = events) ∧ HoldsAll d children
  | .text n content => ∃ parent listeners, d.node? n = some ⟨parent, [], .text content, listeners⟩

/-- A document holds some trees. -/
def HoldsAll (d : Document L) : List Subtree → Prop
  | [] => True
  | t :: ts => Holds d t ∧ HoldsAll d ts

end

/-- A document holds some trees if it holds each of them. -/
theorem holdsAll_iff {ts : List Subtree} : d.HoldsAll ts ↔ ∀ t ∈ ts, d.Holds t := by
  induction ts with
  | nil => simp [HoldsAll]
  | cons t ts ih => simp [HoldsAll, ih]

/-- Distinct live ids are no more than slots. -/
theorem length_le_of_live {ns : List NodeId} (hnodup : ns.Nodup) (hlive : ∀ n ∈ ns, ∃ node, d.node? n = some node) :
    ns.length ≤ d.slots.size := by
  have hindexes : (ns.map NodeId.index).Nodup := by
    apply hnodup.map_on
    intro m hm n hn hindex
    obtain ⟨x, hx⟩ := hlive m hm
    obtain ⟨y, hy⟩ := hlive n hn
    exact eq_of_index_eq hx hy hindex
  have hsub : ns.map NodeId.index ⊆ List.range d.slots.size := by
    intro i hi
    obtain ⟨n, hn, rfl⟩ := List.mem_map.mp hi
    obtain ⟨node, hnode⟩ := hlive n hn
    exact List.mem_range.mpr (index_lt_of_node? hnode)
  simpa using (List.subperm_of_subset hindexes hsub).length_le

namespace Holds

/-- The node of a tree is live, and its children are the trees below it. -/
theorem node? {t : Subtree} (h : d.Holds t) : ∃ node, d.node? t.id = some node := by
  cases t with
  | element n e events children =>
    obtain ⟨⟨parent, listeners, hn, _⟩, _⟩ := h
    exact ⟨_, hn⟩
  | text n content =>
    obtain ⟨parent, listeners, hn⟩ := h
    exact ⟨_, hn⟩

/-- Every id in a tree is live. -/
theorem live {t : Subtree} (h : d.Holds t) : ∀ n ∈ t.ids, ∃ node, d.node? n = some node := by
  induction t using Subtree.induction with
  | element n e events children ih =>
    intro m hm
    rw [Subtree.ids, List.mem_append, Subtree.mem_idsList, List.mem_singleton] at hm
    rcases hm with ⟨t, ht, hmt⟩ | rfl
    · exact ih t ht (holdsAll_iff.mp h.2 t ht) m hmt
    · exact h.node?
  | text n content =>
    intro m hm
    rw [Subtree.ids, List.mem_singleton] at hm
    exact hm ▸ h.node?

/-- A tree depends only on the nodes of its ids, and not on their parents. -/
theorem congr {t : Subtree} (h : d.Holds t)
    (hsame : ∀ n ∈ t.ids, ∀ node, d.node? n = some node → ∃ parent, d'.node? n = some { node with parent }) :
    d'.Holds t := by
  induction t using Subtree.induction with
  | element n e events children ih =>
    obtain ⟨⟨parent, listeners, hn, hevents⟩, hchildren⟩ := h
    obtain ⟨parent', hn'⟩ := hsame n (by simp [Subtree.ids]) _ hn
    refine ⟨⟨parent', listeners, hn', hevents⟩, holdsAll_iff.mpr fun t ht => ?_⟩
    refine ih t ht (holdsAll_iff.mp hchildren t ht) fun m hm => hsame m ?_
    rw [Subtree.ids, List.mem_append, Subtree.mem_idsList]
    exact Or.inl ⟨t, ht, hm⟩
  | text n content =>
    obtain ⟨parent, listeners, hn⟩ := h
    obtain ⟨parent', hn'⟩ := hsame n (by simp [Subtree.ids]) _ hn
    exact ⟨parent', listeners, hn'⟩

/-- A tree stays as long as its nodes do. -/
theorem mono {t : Subtree} (h : d.Holds t)
    (hkept : ∀ n ∈ t.ids, ∀ node, d.node? n = some node → d'.node? n = some node) : d'.Holds t :=
  h.congr fun n hn node hnode => ⟨node.parent, hkept n hn node hnode⟩

/-- The tree is what is read from its node with a budget for all its ids. -/
theorem subtreeWithin {t : Subtree} (h : d.Holds t) {fuel : Nat} (hfuel : t.ids.length ≤ fuel) :
    d.subtreeWithin fuel t.id = some t := by
  induction t using Subtree.induction generalizing fuel with
  | element n e events children ih =>
    obtain ⟨⟨parent, listeners, hn, hevents⟩, hchildren⟩ := h
    cases fuel with
    | zero => simp [Subtree.ids] at hfuel
    | succ fuel =>
      have hread : (children.map Subtree.id).filterMap (d.subtreeWithin fuel) = children := by
        rw [List.filterMap_map]
        have hall : ∀ t ∈ children, (d.subtreeWithin fuel ∘ Subtree.id) t = some t := by
          intro t ht
          apply ih t ht (holdsAll_iff.mp hchildren t ht)
          have hlt := Subtree.length_ids_lt n e events ht
          omega
        rw [List.filterMap_congr hall, List.filterMap_some]
      simp only [Subtree.id, Document.subtreeWithin, hn, Option.map_some, hevents, hread]
  | text n content =>
    obtain ⟨parent, listeners, hn⟩ := h
    cases fuel with
    | zero => simp [Subtree.ids] at hfuel
    | succ fuel => simp [Subtree.id, Document.subtreeWithin, hn]

/-- The ids of the tree in order are what is listed from its node with a budget for all of them. -/
theorem postorderWithin {t : Subtree} (h : d.Holds t) {fuel : Nat} (hfuel : t.ids.length ≤ fuel) :
    d.postorderWithin fuel t.id = t.ids := by
  induction t using Subtree.induction generalizing fuel with
  | element n e events children ih =>
    obtain ⟨⟨parent, listeners, hn, hevents⟩, hchildren⟩ := h
    cases fuel with
    | zero => simp [Subtree.ids] at hfuel
    | succ fuel =>
      have hread : (children.map Subtree.id).flatMap (d.postorderWithin fuel) = Subtree.idsList children := by
        rw [List.flatMap_map, Subtree.idsList_eq]
        apply List.flatMap_congr
        intro t ht
        apply ih t ht (holdsAll_iff.mp hchildren t ht)
        have hlt := Subtree.length_ids_lt n e events ht
        omega
      rw [Subtree.id, Document.postorderWithin, children_of_node? hn, hread, Subtree.ids]
  | text n content =>
    obtain ⟨parent, listeners, hn⟩ := h
    cases fuel with
    | zero => simp [Subtree.ids] at hfuel
    | succ fuel => simp [Subtree.id, Document.postorderWithin, children_of_node? hn, Subtree.ids]

/-- A node has one tree. -/
theorem unique {t u : Subtree} (ht : d.Holds t) (hu : d.Holds u) (hid : t.id = u.id) : t = u := by
  have hread := ht.subtreeWithin (Nat.le_max_left t.ids.length u.ids.length)
  rw [hid, hu.subtreeWithin (Nat.le_max_right t.ids.length u.ids.length)] at hread
  exact (Option.some.inj hread).symm

/-- The ids of a tree are those that lie within its node. -/
theorem mem_ids_iff (hd : d.Linked) {t : Subtree} (h : d.Holds t) (m : NodeId) :
    m ∈ t.ids ↔ d.Within m t.id := by
  induction t using Subtree.induction with
  | element n e events children ih =>
    obtain ⟨⟨parent, listeners, hn, hevents⟩, hchildren⟩ := h
    have hfamily := children_of_node? hn
    rw [Subtree.ids, List.mem_append, Subtree.mem_idsList, List.mem_singleton]
    constructor
    · intro hm
      rcases hm with ⟨t, ht, hmt⟩ | rfl
      · have hwithin := (ih t ht (holdsAll_iff.mp hchildren t ht)).mp hmt
        refine hwithin.tail (hd.parent_of_mem ?_)
        rw [Subtree.id, hfamily]
        exact List.mem_map_of_mem ht
      · exact .refl
    · intro hwithin
      rcases ReflTransGen.cases_tail hwithin with heq | ⟨c, hmc, hc⟩
      · exact Or.inr heq.symm
      · have hmem := hd.mem_of_parent hc
        rw [Subtree.id, hfamily] at hmem
        obtain ⟨t, ht, rfl⟩ := List.mem_map.mp hmem
        exact Or.inl ⟨t, ht, (ih t ht (holdsAll_iff.mp hchildren t ht)).mpr hmc⟩
  | text n content =>
    obtain ⟨parent, listeners, hn⟩ := h
    have hfamily := children_of_node? hn
    rw [Subtree.ids, List.mem_singleton]
    constructor
    · intro heq
      subst heq
      exact .refl
    · intro hwithin
      rcases ReflTransGen.cases_tail hwithin with heq | ⟨c, hmc, hc⟩
      · exact heq.symm
      · have hmem := hd.mem_of_parent hc
        rw [Subtree.id, hfamily] at hmem
        contradiction

/-- No id occurs twice in a tree. -/
theorem nodup_ids (hd : d.Linked) {t : Subtree} (h : d.Holds t) : t.ids.Nodup := by
  induction t using Subtree.induction with
  | element n e events children ih =>
    obtain ⟨⟨parent, listeners, hn, hevents⟩, hchildren⟩ := h
    have hfamily := children_of_node? hn
    have hall := holdsAll_iff.mp hchildren
    have hparent : ∀ t ∈ children, d.parent? t.id = some n := by
      intro t ht
      apply hd.parent_of_mem
      rw [hfamily]
      exact List.mem_map_of_mem ht
    -- Two children are apart: of two nodes above one id one is above the other, and so is the parent.
    have hapart : children.Pairwise fun t u => List.Disjoint t.ids u.ids := by
      have hnodup := hd.nodup n
      rw [hfamily] at hnodup
      apply (List.pairwise_map.mp hnodup).imp_of_mem
      intro t u ht hu hne m hmt hmu
      have habove (x y : Subtree) (hx : x ∈ children) (hy : y ∈ children) (hxy : x.id ≠ y.id)
          (hwithin : d.Within x.id y.id) : False := by
        rcases ReflTransGen.cases_head hwithin with heq | ⟨p, hp, hbehind⟩
        · exact hxy heq
        · have hpn : p = n := Option.some.inj (hp.symm.trans (hparent x hx))
          exact hd.acyclic n (TransGen.tail' (hpn ▸ hbehind) (hparent y hy))
      rcases within_total ((mem_ids_iff hd (hall t ht) m).mp hmt) ((mem_ids_iff hd (hall u hu) m).mp hmu)
        with hwithin | hwithin
      · exact habove t u ht hu hne hwithin
      · exact habove u t hu ht hne.symm hwithin
    rw [Subtree.ids, List.nodup_append]
    refine ⟨?_, by simp, ?_⟩
    · rw [Subtree.idsList_eq]
      exact List.nodup_flatMap.mpr ⟨fun t ht => ih t ht (hall t ht), hapart⟩
    · intro m hm k hk hmk
      rw [List.mem_singleton] at hk
      subst hmk hk
      obtain ⟨t, ht, hmt⟩ := Subtree.mem_idsList.mp hm
      exact hd.acyclic m (TransGen.tail' ((mem_ids_iff hd (hall t ht) m).mp hmt) (hparent t ht))
  | text n content => simp [Subtree.ids]

/-- A tree has no more ids than the document has slots. -/
theorem length_ids_le (hd : d.Linked) {t : Subtree} (h : d.Holds t) : t.ids.length ≤ d.slots.size :=
  length_le_of_live (h.nodup_ids hd) h.live

/-- The tree is what the document shows below its node. -/
theorem subtree? (hd : d.Linked) {t : Subtree} (h : d.Holds t) : d.subtree? t.id = some t :=
  h.subtreeWithin (h.length_ids_le hd)

/-- The ids of the tree are those that the document lists below its node. -/
theorem postorder (hd : d.Linked) {t : Subtree} (h : d.Holds t) : d.postorder t.id = t.ids :=
  h.postorderWithin (h.length_ids_le hd)

end Holds

/-- To prove something of all live nodes, prove it of each from its children. -/
theorem Linked.live_induction (hd : d.Linked) {motive : NodeId → Prop}
    (step : ∀ n node, d.node? n = some node → (∀ c ∈ node.children, motive c) → motive n)
    (n : NodeId) (node : Node L) (hn : d.node? n = some node) : motive n := by
  let Live := { n : NodeId // ∃ node, d.node? n = some node }
  let place : Live → Fin d.slots.size := fun n => ⟨n.1.index, index_lt_of_node? n.2.choose_spec⟩
  have hplace : Function.Injective place := by
    intro m n heq
    exact Subtype.ext (eq_of_index_eq m.2.choose_spec n.2.choose_spec (Fin.mk.inj heq))
  have : Finite Live := Finite.of_injective place hplace
  let under : Live → Live → Prop := fun m n => d.Below m.1 n.1
  have : IsTrans Live under := ⟨fun _ _ _ hab hbc => hab.trans hbc⟩
  have : Std.Irrefl under := ⟨fun n => hd.acyclic n.1⟩
  have hwf := Finite.wellFounded_of_trans_of_irrefl under
  apply hwf.induction (C := fun m => motive m.1) ⟨n, node, hn⟩
  intro live ih
  obtain ⟨m, x, hm⟩ := live
  apply step m x hm
  intro c hc
  have hparent : d.parent? c = some m := hd.parent_of_mem (by rwa [children_of_node? hm])
  exact ih ⟨c, Document.node?_of_parent hparent⟩ (.single hparent)

/-- Every live node of a well-formed document has a tree. -/
theorem WellFormed.exists_holds (hd : d.WellFormed) {n : NodeId} {node : Node L}
    (hn : d.node? n = some node) : ∃ t, t.id = n ∧ d.Holds t := by
  refine hd.linked.live_induction (motive := fun n => ∃ t, t.id = n ∧ d.Holds t) ?_ n node hn
  intro m node hm ih
  obtain ⟨parent, children, data, listeners⟩ := node
  cases data with
  | element e =>
    choose! tree hid hholds using ih
    refine ⟨.element m e (listeners.map Prod.fst) (children.map tree), rfl, ?_, ?_⟩
    · have hback : (children.map tree).map Subtree.id = children := by
        rw [List.map_map]
        exact (List.map_congr_left hid).trans (List.map_id children)
      exact ⟨parent, listeners, by rw [hback]; exact hm, rfl⟩
    · rw [holdsAll_iff]
      intro t ht
      obtain ⟨c, hc, rfl⟩ := List.mem_map.mp ht
      exact hholds c hc
  | text content =>
    obtain ⟨rfl, -⟩ := hd.text_bare hm rfl
    exact ⟨.text m content, rfl, parent, listeners, hm⟩

/-- There is no tree below an id that is not live. -/
theorem subtree?_eq_none {n : NodeId} (hn : d.node? n = none) : d.subtree? n = none := by
  rw [subtree?]
  cases d.slots.size with
  | zero => rfl
  | succ fuel => rw [subtreeWithin, hn, Option.map_none]

/-- The tree below an id is a matter of the nodes. -/
theorem WellFormed.subtree?_congr (hd : d.WellFormed) (hd' : d'.WellFormed)
    (hsame : ∀ n, d'.node? n = d.node? n) (n : NodeId) : d'.subtree? n = d.subtree? n := by
  cases hn : d.node? n with
  | none => rw [subtree?_eq_none hn, subtree?_eq_none ((hsame n).trans hn)]
  | some node =>
    obtain ⟨t, rfl, ht⟩ := hd.exists_holds hn
    have ht' : d'.Holds t := ht.mono fun m _ node hm => (hsame m).trans hm
    rw [ht.subtree? hd.linked, ht'.subtree? hd'.linked]

end Document

end ReactiveTemplate
