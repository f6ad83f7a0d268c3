import ReactiveTemplate.Document.Load
import ReactiveTemplate.Proofs.Document.Removal
import ReactiveTemplate.Proofs.Fallible

/-!
# Trees built beside a document

`Grown d d' trees` says that `d'` is `d` with some trees put beside it: nothing of `d` has changed, and
what is new are the nodes of the trees, which stand alone. Creating, editing, appending and removing
nodes act on the list of trees, so that code which builds trees in a document can be followed without
looking at slots. Documents read from markup are grown from the void.
-/

namespace ReactiveTemplate

variable {L : Type}

/-- The tree of a node that was just put in. -/
def Subtree.leaf (n : NodeId) : NodeData → Subtree
  | .element e => .element n e [] []
  | .text content => .text n content

/-- A tree of one node has the id of that node. -/
@[simp]
theorem Subtree.id_leaf (n : NodeId) (data : NodeData) : (leaf n data).id = n := by
  cases data <;> rfl

/-- A tree of one node has no other ids. -/
@[simp]
theorem Subtree.ids_leaf (n : NodeId) (data : NodeData) : (leaf n data).ids = [n] := by
  cases data <;> rfl

/-- The ids of trees of which the first takes the second as its last child. -/
theorem Subtree.idsList_adopted (n : NodeId) (e : Element) (events : List String)
    (children : List Subtree) (t : Subtree) (rest : List Subtree) :
    (idsList (.element n e events (children ++ [t]) :: rest)).Perm
      (idsList (.element n e events children :: t :: rest)) := by
  simp only [idsList, ids, idsList_append, List.append_nil, List.append_assoc]
  exact List.Perm.append_left _ List.perm_middle

namespace Document

variable {d d₁ d₂ : Document L}

/-- The second document is the first with some trees beside it. -/
structure Grown (d d' : Document L) (trees : List Subtree) : Prop where
  wellFormed : d'.WellFormed
  kept : ∀ {n node}, d.node? n = some node → d'.node? n = some node
  holds : ∀ t ∈ trees, d'.Holds t
  root : ∀ t ∈ trees, d'.parent? t.id = none
  fresh : ∀ n ∈ Subtree.idsList trees, d.node? n = none
  nodup : (Subtree.idsList trees).Nodup
  new : ∀ {n node}, d'.node? n = some node → d.node? n = some node ∨ n ∈ Subtree.idsList trees

namespace Grown

variable {trees rest : List Subtree}

/-- Nothing put beside a document leaves it as it is. -/
theorem refl (h : d.WellFormed) : Grown d d [] where
  wellFormed := h
  kept hn := hn
  holds _ ht := absurd ht List.not_mem_nil
  root _ ht := absurd ht List.not_mem_nil
  fresh _ hn := absurd hn List.not_mem_nil
  nodup := List.nodup_nil
  new hn := Or.inl hn

/-- With nothing beside it, every id means what it meant. -/
theorem node?_eq (h : Grown d d₁ []) (n : NodeId) : d₁.node? n = d.node? n := by
  cases hn : d₁.node? n with
  | none =>
    cases hold : d.node? n with
    | none => rfl
    | some node =>
      rw [h.kept hold] at hn
      contradiction
  | some node =>
    rcases h.new hn with hold | hmem
    · exact hold.symm
    · exact absurd hmem List.not_mem_nil

/-- A live id of the first document is in none of the trees. -/
theorem not_mem_ids (h : Grown d d₁ trees) {n : NodeId} {node : Node L} (hn : d.node? n = some node) :
    n ∉ Subtree.idsList trees := by
  intro hmem
  rw [h.fresh n hmem] at hn
  contradiction

/-- What was in the document is not at the top of a tree beside it. -/
theorem ne_id (h : Grown d d₁ trees) {n : NodeId} {node : Node L} (hn : d.node? n = some node)
    {t : Subtree} (ht : t ∈ trees) : n ≠ t.id := by
  intro heq
  exact h.not_mem_ids hn (Subtree.mem_idsList.mpr ⟨t, ht, heq ▸ t.id_mem_ids⟩)

/-- Trees put beside a document and then others. -/
theorem trans {more : List Subtree} (h : Grown d d₁ trees) (h' : Grown d₁ d₂ more) :
    Grown d d₂ (trees ++ more) where
  wellFormed := h'.wellFormed
  kept hn := h'.kept (h.kept hn)
  holds t ht := by
    rcases List.mem_append.mp ht with ht | ht
    · exact (h.holds t ht).mono fun _ _ _ hnode => h'.kept hnode
    · exact h'.holds t ht
  root t ht := by
    rcases List.mem_append.mp ht with ht | ht
    · obtain ⟨node, hnode⟩ := (h.holds t ht).node?
      rw [parent?_of_node? (h'.kept hnode), ← parent?_of_node? hnode, h.root t ht]
    · exact h'.root t ht
  fresh n hn := by
    rw [Subtree.idsList_append] at hn
    rcases List.mem_append.mp hn with hn | hn
    · exact h.fresh n hn
    · cases hold : d.node? n with
      | none => rfl
      | some node => exact absurd hn (h'.not_mem_ids (h.kept hold))
  nodup := by
    rw [Subtree.idsList_append, List.nodup_append]
    refine ⟨h.nodup, h'.nodup, ?_⟩
    intro n hn m hn' heq
    subst heq
    obtain ⟨t, ht, hnt⟩ := Subtree.mem_idsList.mp hn
    obtain ⟨node, hnode⟩ := (h.holds t ht).live n hnt
    exact h'.not_mem_ids hnode hn'
  new hn := by
    rw [Subtree.idsList_append, List.mem_append]
    rcases h'.new hn with hold | hmem
    · exact (h.new hold).imp_right Or.inl
    · exact Or.inr (Or.inr hmem)

/-- A new node stands beside the document. -/
theorem insert (h : d.WellFormed) (data : NodeData) :
    Grown d (d.insert data).2 [Subtree.leaf (d.insert data).1 data] := by
  obtain ⟨hfresh, hread⟩ := node?_insert h.freeList data
  have hnew : (d.insert data).2.node? (d.insert data).1 = some (bare data) := by rw [hread, if_pos rfl]
  refine ⟨h.insert data, fun {n node} hn => ?_, fun t ht => ?_, fun t ht => ?_, fun n hn => ?_, ?_,
    fun {n node} hn => ?_⟩
  · rw [hread, if_neg, hn]
    intro heq
    subst heq
    rw [hfresh] at hn
    contradiction
  · rw [List.mem_singleton] at ht
    subst ht
    cases data with
    | element e => exact ⟨⟨none, [], hnew, rfl⟩, trivial⟩
    | text content => exact ⟨none, [], hnew⟩
  · rw [List.mem_singleton] at ht
    rw [ht, Subtree.id_leaf, parent?_of_node? hnew]
    rfl
  · simp only [Subtree.idsList, Subtree.ids_leaf, List.append_nil, List.mem_singleton] at hn
    rw [hn, hfresh]
  · simp [Subtree.idsList]
  · rw [hread] at hn
    split at hn
    · next hnn => simp [Subtree.idsList, hnn]
    · exact Or.inl hn

section Uppermost

variable {n : NodeId} {e : Element} {events : List String} {children : List Subtree}

/-- The uppermost node of the first tree is an element. -/
theorem first (h : Grown d d₁ (.element n e events children :: rest)) :
    ∃ listeners, d₁.node? n = some ⟨none, children.map Subtree.id, .element e, listeners⟩ ∧
      listeners.map Prod.fst = events := by
  obtain ⟨⟨parent, listeners, hn, hevents⟩, _⟩ := h.holds _ List.mem_cons_self
  have hroot := h.root _ List.mem_cons_self
  rw [Subtree.id, parent?_of_node? hn] at hroot
  simp only at hroot
  exact ⟨listeners, hroot ▸ hn, hevents⟩

/-- The ids of the first tree are all different, and not in the other trees. -/
theorem apart (h : Grown d d₁ (.element n e events children :: rest)) :
    n ∉ Subtree.idsList children ∧ n ∉ Subtree.idsList rest ∧
      ∀ m ∈ Subtree.idsList children, m ∉ Subtree.idsList rest := by
  have hnodup := h.nodup
  simp only [Subtree.idsList, Subtree.ids, List.nodup_append, List.mem_append, List.mem_singleton] at hnodup
  obtain ⟨⟨_, _, hown⟩, _, hothers⟩ := hnodup
  exact ⟨fun hn => hown n hn n rfl rfl, fun hn => hothers n (Or.inr rfl) n hn rfl,
    fun m hm hm' => hothers m (Or.inl hm) m hm' rfl⟩

/-- The second tree has another node at its top. -/
theorem second_ne {t : Subtree} (h : Grown d d₁ (.element n e events children :: t :: rest)) :
    n ≠ t.id := by
  obtain ⟨_, hothers, _⟩ := h.apart
  simp only [Subtree.idsList, List.mem_append, not_or] at hothers
  exact fun heq => hothers.1 (heq ▸ t.id_mem_ids)

/-- The trees behind the second have other nodes at their tops. -/
theorem third_ne {s t u : Subtree} (h : Grown d d₁ (s :: t :: rest)) (hu : u ∈ rest) :
    u.id ≠ t.id := by
  intro heq
  have hnodup := h.nodup
  simp only [Subtree.idsList, List.nodup_append] at hnodup
  exact hnodup.2.1.2.2 t.id t.id_mem_ids t.id
    (Subtree.mem_idsList.mpr ⟨u, hu, heq ▸ u.id_mem_ids⟩) rfl

/-- An operation on the uppermost node of the first tree is done. It changes that node alone, and so
the tree. -/
theorem onElement (h : Grown d d₁ (.element n e events children :: rest)) {f : Node L → Element → Node L}
    {e' : Element} {events' : List String}
    (hf : ∀ node, node.data = .element e → node.listeners.map Prod.fst = events →
      (f node e).parent = node.parent ∧ (f node e).children = node.children ∧
        (f node e).data = .element e' ∧ (f node e).listeners.map Prod.fst = events')
    (hwf : (d₁.onElement n f).2.WellFormed) :
    (d₁.onElement n f).1 = .ok () ∧
      Grown d (d₁.onElement n f).2 (.element n e' events' children :: rest) := by
  obtain ⟨listeners, hn, hevents⟩ := h.first
  obtain ⟨hout, hrest, _⟩ := h.apart
  rw [onElement_eq hn rfl] at hwf ⊢
  have hread := node?_modify d₁ n fun node => f node e
  obtain ⟨hparent, hchildren, hdata, hlisteners⟩ :=
    hf ⟨none, children.map Subtree.id, .element e, listeners⟩ rfl hevents
  generalize hafter : f ⟨none, children.map Subtree.id, .element e, listeners⟩ e = after
    at hparent hchildren hdata hlisteners
  have hnew : (d₁.modify n fun node => f node e).node? n = some after := by
    rw [hread, if_pos rfl, hn, Option.map_some, hafter]
  have hother {t : Subtree} (ht : d₁.Holds t) (hnt : n ∉ t.ids) :
      (d₁.modify n fun node => f node e).Holds t := by
    apply ht.mono
    intro m hm node hnode
    have hmn : m ≠ n := fun heq => hnt (heq ▸ hm)
    rw [hread, if_neg hmn, hnode]
  refine ⟨rfl, hwf, fun {m node} hm => ?_, fun t ht => ?_, fun t ht => ?_, ?_, ?_, fun {m node} hm => ?_⟩
  · have hmn : m ≠ n := h.ne_id hm List.mem_cons_self
    rw [hread, if_neg hmn, h.kept hm]
  · rcases List.mem_cons.mp ht with rfl | ht
    · cases after
      simp only at hparent hchildren hdata hlisteners
      subst hparent hchildren hdata
      refine ⟨⟨none, _, hnew, hlisteners⟩, holdsAll_iff.mpr fun t ht => ?_⟩
      refine hother (holdsAll_iff.mp (h.holds _ List.mem_cons_self).2 t ht) fun hmem => hout ?_
      exact Subtree.mem_idsList.mpr ⟨t, ht, hmem⟩
    · refine hother (h.holds t (List.mem_cons_of_mem _ ht)) fun hmem => hrest ?_
      exact Subtree.mem_idsList.mpr ⟨t, ht, hmem⟩
  · have hstay : (d₁.modify n fun node => f node e).parent? t.id = d₁.parent? t.id := by
      rw [parent?, hread]
      split
      · next heq => rw [heq, hn, Option.map_some, hafter, Option.bind_some, hparent, parent?_of_node? hn]
      · rfl
    rw [hstay]
    rcases List.mem_cons.mp ht with rfl | ht
    · exact parent?_of_node? hn
    · exact h.root t (List.mem_cons_of_mem _ ht)
  · exact h.fresh
  · exact h.nodup
  · rw [hread] at hm
    split at hm
    · next hmn => simp [Subtree.idsList, Subtree.ids, hmn]
    · exact h.new hm

/-- Editing the uppermost element of the first tree. -/
theorem editElement (h : Grown d d₁ (.element n e events children :: rest)) (f : Element → Element) :
    (d₁.editElement n f).1 = .ok () ∧
      Grown d (d₁.editElement n f).2 (.element n (f e) events children :: rest) :=
  h.onElement (fun _ _ hevents => ⟨rfl, rfl, rfl, hevents⟩) (h.wellFormed.editElement n f)

/-- Adding a listener to the uppermost element of the first tree. -/
theorem addListener (h : Grown d d₁ (.element n e events children :: rest)) (event : String)
    (listener : L) :
    (d₁.addListener n event listener).1 = .ok () ∧
      Grown d (d₁.addListener n event listener).2 (.element n e (events ++ [event]) children :: rest) :=
  h.onElement (fun _ hdata hevents => ⟨rfl, rfl, hdata, by simp [hevents]⟩)
    (h.wellFormed.addListener n event listener)

/-- What the nodes of the document mean once the second tree is appended to the first: the appended node
had no parent, so only its own link and the list of its new parent change. -/
theorem node?_append {t : Subtree} (h : Grown d d₁ (.element n e events children :: t :: rest)) :
    (d₁.append n t.id).1 = .ok () ∧ ∀ m, (d₁.append n t.id).2.node? m =
      (d₁.node? m).map fun node => { node with
        parent := if m = t.id then some n else node.parent
        children := if m = n then node.children ++ [t.id] else node.children } := by
  obtain ⟨listeners, hn, _⟩ := h.first
  have hroot : d₁.parent? t.id = none := h.root t (by simp)
  have hlive := h.holds t (by simp)
  obtain ⟨hok, hread⟩ := append_eq h.wellFormed hn rfl (contains_iff.mpr hlive.node?) h.second_ne.symm
  refine ⟨hok, fun m => ?_⟩
  rw [hread]
  cases hm : d₁.node? m with
  | none => rfl
  | some node =>
    rw [Option.map_some, Option.map_some, adopted,
      filter_children h.wellFormed.linked hm (by rw [hroot]; simp)]

/-- Appending the second tree to the first. -/
theorem append {t : Subtree} (h : Grown d d₁ (.element n e events children :: t :: rest)) :
    (d₁.append n t.id).1 = .ok () ∧
      Grown d (d₁.append n t.id).2 (.element n e events (children ++ [t]) :: rest) := by
  obtain ⟨listeners, hn, hevents⟩ := h.first
  obtain ⟨hown, hothers, hchildren⟩ := h.apart
  simp only [Subtree.idsList, List.mem_append, not_or] at hothers hchildren
  obtain ⟨hok, hread⟩ := h.node?_append
  have hne := h.second_ne
  have hwf : (d₁.append n t.id).2.WellFormed := h.wellFormed.append fun hwithin =>
    hne (eq_of_within_of_parent_none (parent?_of_node? hn) hwithin)
  have hother {u : Subtree} (hu : d₁.Holds u) (hnu : n ∉ u.ids) : (d₁.append n t.id).2.Holds u := by
    refine hu.congr fun m hm node hnode => ⟨if m = t.id then some n else node.parent, ?_⟩
    have hmn : m ≠ n := fun heq => hnu (heq ▸ hm)
    rw [hread, hnode, Option.map_some, if_neg hmn]
  have hold {m : NodeId} {node : Node L} (hm : d.node? m = some node) :
      (d₁.append n t.id).2.node? m = some node := by
    have hmn : m ≠ n := h.ne_id hm List.mem_cons_self
    have hmt : m ≠ t.id := h.ne_id hm (by simp)
    rw [hread, h.kept hm, Option.map_some, if_neg hmn, if_neg hmt]
  have hids := Subtree.idsList_adopted n e events children t rest
  refine ⟨hok, hwf, hold, fun u hu => ?_, fun u hu => ?_, fun m hm => ?_, ?_, fun {m node} hm => ?_⟩
  · rcases List.mem_cons.mp hu with rfl | hu
    · refine ⟨⟨none, listeners, ?_, hevents⟩, holdsAll_iff.mpr fun u hu => ?_⟩
      · rw [hread, hn, Option.map_some, if_neg hne, if_pos rfl, List.map_append]
        rfl
      · rcases List.mem_append.mp hu with hu | hu
        · refine hother (holdsAll_iff.mp (h.holds _ List.mem_cons_self).2 u hu) fun hmem => hown ?_
          exact Subtree.mem_idsList.mpr ⟨u, hu, hmem⟩
        · rw [List.mem_singleton.mp hu]
          exact hother (h.holds t (by simp)) hothers.1
    · refine hother (h.holds u (by simp [hu])) fun hmem => hothers.2 ?_
      exact Subtree.mem_idsList.mpr ⟨u, hu, hmem⟩
  · rcases List.mem_cons.mp hu with rfl | hu
    · rw [Subtree.id, parent?, hread, hn, Option.map_some, Option.bind_some, if_neg hne]
    · obtain ⟨node, hnode⟩ := (h.holds u (by simp [hu])).node?
      rw [parent?, hread, hnode, Option.map_some, Option.bind_some, if_neg (h.third_ne hu),
        ← parent?_of_node? hnode]
      exact h.root u (by simp [hu])
  · exact h.fresh m (hids.mem_iff.mp hm)
  · exact hids.nodup_iff.mpr h.nodup
  · rw [hids.mem_iff]
    rw [hread, Option.map_eq_some_iff] at hm
    obtain ⟨before, hbefore, hafter⟩ := hm
    rcases h.new hbefore with hkept | hmem
    · have hstay := hold hkept
      rw [hread, hbefore, Option.map_some, hafter] at hstay
      exact Or.inl (hkept.trans hstay.symm)
    · exact Or.inr hmem

end Uppermost

/-- Removing the first tree. -/
theorem remove {t : Subtree} (h : Grown d d₁ (t :: rest)) :
    (d₁.remove t.id).1 = .ok () ∧ Grown d (d₁.remove t.id).2 rest := by
  have ht := h.holds t List.mem_cons_self
  obtain ⟨hok, hread⟩ := remove_eq h.wellFormed ht
  have hnodup := h.nodup
  rw [Subtree.idsList, List.nodup_append] at hnodup
  obtain ⟨_, hrest, hdisjoint⟩ := hnodup
  -- The removed tree had no parent, so no other node changes.
  have hkeep {m : NodeId} {node : Node L} (hm : d₁.node? m = some node) (hout : m ∉ t.ids) :
      (d₁.remove t.id).2.node? m = some node := by
    have hmt : m ≠ t.id := fun heq => hout (heq ▸ t.id_mem_ids)
    rw [hread, if_neg hout, hm, Option.map_some,
      severed_eq_self h.wellFormed.linked hm hmt (by rw [h.root t List.mem_cons_self]; simp)]
  have hout {u : Subtree} (hu : u ∈ rest) {m : NodeId} (hm : m ∈ u.ids) : m ∉ t.ids :=
    fun hmt => hdisjoint m hmt m (Subtree.mem_idsList.mpr ⟨u, hu, hm⟩) rfl
  refine ⟨hok, h.wellFormed.remove t.id, fun {m node} hm => ?_, fun u hu => ?_, fun u hu => ?_,
    fun m hm => ?_, hrest, fun {m node} hm => ?_⟩
  · refine hkeep (h.kept hm) fun hmt => h.not_mem_ids hm ?_
    exact List.mem_append_left _ hmt
  · exact (h.holds u (List.mem_cons_of_mem _ hu)).mono fun m hm node hnode => hkeep hnode (hout hu hm)
  · obtain ⟨node, hnode⟩ := (h.holds u (List.mem_cons_of_mem _ hu)).node?
    rw [parent?_of_node? (hkeep hnode (hout hu u.id_mem_ids)), ← parent?_of_node? hnode]
    exact h.root u (List.mem_cons_of_mem _ hu)
  · exact h.fresh m (List.mem_append_right _ hm)
  · have hmt : m ∉ t.ids := by
      intro hmt
      rw [hread, if_pos hmt] at hm
      contradiction
    rw [hread, if_neg hmt, Option.map_eq_some_iff] at hm
    obtain ⟨before, hbefore, hafter⟩ := hm
    have hstay := hkeep hbefore hmt
    rw [hread, if_neg hmt, hbefore, Option.map_some, hafter] at hstay
    rcases h.new hbefore with hold | hmem
    · exact Or.inl (hold.trans hstay.symm)
    · exact Or.inr ((List.mem_append.mp hmem).resolve_left hmt)

/-- Removing all trees. -/
theorem discard (h : Grown d d₁ trees) :
    Grown d ((trees.map Subtree.id).foldl (fun d n => (d.remove n).2) d₁) [] := by
  induction trees generalizing d₁ with
  | nil => exact h
  | cons t rest ih => exact ih h.remove.2

/-- What the nodes of the document mean once the tree beside it has taken the place of another: that other
tree is gone, its parent lists the new one in its place, and nothing else changes. -/
theorem node?_replace {t u : Subtree} (h : Grown d d₁ [u]) (ht : d.Holds t) :
    (d₁.replace t.id u.id).1 = .ok () ∧ (d₁.replace t.id u.id).2.WellFormed ∧
      ∀ n, (d₁.replace t.id u.id).2.node? n =
        if n ∈ t.ids then none else (d₁.node? n).map (exchanged t.id u.id (d.parent? t.id) n) := by
  have hu := h.holds u (List.mem_singleton_self u)
  have hroot : d₁.parent? u.id = none := h.root u (List.mem_singleton_self u)
  obtain ⟨old, hold⟩ := ht.node?
  have hout : t.id ∉ u.ids := fun hmem =>
    h.not_mem_ids hold (Subtree.mem_idsList.mpr ⟨u, List.mem_singleton_self u, hmem⟩)
  have hne : t.id ≠ u.id := fun heq => hout (heq ▸ u.id_mem_ids)
  have hpath : ¬ d₁.Below t.id u.id := fun hbelow =>
    hout ((hu.mem_ids_iff h.wellFormed.linked t.id).mpr hbelow.to_reflTransGen)
  have hdetach : d₁.detach u.id = d₁ := by rw [detach, hroot]
  have ht₁ : (d₁.detach u.id).Holds t := by
    rw [hdetach]
    exact ht.mono fun _ _ _ hn => h.kept hn
  have hup : d₁.parent? t.id = d.parent? t.id := by
    rw [parent?_of_node? (h.kept hold), parent?_of_node? hold]
  obtain ⟨hok, hread⟩ := replace_eq h.wellFormed hne (contains_iff.mpr hu.node?) hpath ht₁ rfl
  rw [hdetach, hup] at hread
  exact ⟨hok, h.wellFormed.replace hpath, hread⟩

/-- The tree beside the document takes the place of another. It stays as it is, and so does every tree
that is neither above nor below that place. -/
theorem swap {t u : Subtree} (h : Grown d d₁ [u]) (hd : d.WellFormed) (ht : d.Holds t) :
    (d₁.replace t.id u.id).1 = .ok () ∧ (d₁.replace t.id u.id).2.WellFormed ∧
      (d₁.replace t.id u.id).2.Holds u ∧
      ∀ other, d.Holds other → ¬ d.Within t.id other.id → ¬ d.Within other.id t.id →
        (d₁.replace t.id u.id).2.Holds other := by
  have hu := h.holds u (List.mem_singleton_self u)
  have hnew {n : NodeId} {node : Node L} (hn : d.node? n = some node) : n ∉ u.ids := by
    intro hmem
    exact h.not_mem_ids hn (Subtree.mem_idsList.mpr ⟨u, List.mem_singleton_self u, hmem⟩)
  obtain ⟨old, hold⟩ := ht.node?
  obtain ⟨hok, hwell, hread⟩ := h.node?_replace ht
  have hup : d₁.parent? t.id = d.parent? t.id := by
    rw [parent?_of_node? (h.kept hold), parent?_of_node? hold]
  -- A node that is neither in the old tree nor above it keeps its children.
  have hkeep {n : NodeId} {node : Node L} (hn : d₁.node? n = some node) (hout : n ∉ t.ids)
      (habove : d.parent? t.id ≠ some n) :
      ∃ parent, (d₁.replace t.id u.id).2.node? n = some { node with parent } := by
    refine ⟨if n = u.id then d.parent? t.id else node.parent, ?_⟩
    rw [hread, if_neg hout, hn, Option.map_some, exchanged,
      replace_children h.wellFormed.linked u.id hn (hup ▸ habove)]
  refine ⟨hok, hwell, hu.congr fun n hn node hnode => ?_,
    fun other hother habove hbelow => hother.congr fun n hn node hnode => ?_⟩
  · refine hkeep hnode (fun hmem => ?_) fun hparent => ?_
    · obtain ⟨live, hlive⟩ := ht.live n hmem
      exact hnew hlive hn
    · obtain ⟨above, hlive⟩ := hd.linked.node?_of_parent hparent
      exact hnew hlive hn
  · have hwithin := (hother.mem_ids_iff hd.linked n).mp hn
    refine hkeep (h.kept hnode) (fun hmem => ?_) fun hparent => ?_
    · rcases within_total hwithin ((ht.mem_ids_iff hd.linked n).mp hmem) with hpath | hpath
      · exact hbelow hpath
      · exact habove hpath
    · exact habove (.head hparent hwithin)

/-! ### Documents from markup -/

mutual

/-- A piece of markup becomes one tree beside the document. -/
theorem build {d : Document L} (h : d.WellFormed) (m : Markup) :
    ∃ t, t.id = (d.build m).1 ∧ Grown d (d.build m).2 [t] := by
  cases m with
  | text content => exact ⟨_, Subtree.id_leaf _ _, Grown.insert h (.text content)⟩
  | element tag attributes pieces =>
    obtain ⟨more, hgrown⟩ := buildInto (Grown.insert h (.element (.ofMarkup tag attributes))) pieces
    exact ⟨_, rfl, hgrown⟩

/-- Pieces of markup become children of the uppermost element of a tree. -/
theorem buildInto {d d₁ : Document L} {n : NodeId} {e : Element} {events : List String}
    {children : List Subtree} (h : Grown d d₁ [.element n e events children]) (pieces : List Markup) :
    ∃ more, Grown d (d₁.buildInto n pieces) [.element n e events (children ++ more)] := by
  cases pieces with
  | nil => exact ⟨[], by rwa [List.append_nil]⟩
  | cons piece pieces =>
    obtain ⟨t, hid, hgrown⟩ := build h.wellFormed piece
    have happended := (h.trans hgrown).append.2
    rw [hid] at happended
    obtain ⟨more, hmore⟩ := buildInto happended pieces
    exact ⟨t :: more, by rwa [List.append_assoc] at hmore⟩

end

end Grown

/-- A document read from markup is made of the pieces of the markup. -/
theorem exists_buildInto_of_load {source : String} (h : load source = .ok d) :
    ∃ pieces, d = empty.buildInto (empty : Document L).body pieces := by
  obtain ⟨pieces, _, h⟩ := ok_of_bind h
  cases h
  exact ⟨pieces, rfl⟩

/-- A document read from markup is one tree, the body, in the void. -/
theorem grown_of_load {source : String} (h : load source = .ok d) : ∃ t, Grown void d [t] := by
  obtain ⟨pieces, rfl⟩ := exists_buildInto_of_load h
  obtain ⟨more, hgrown⟩ := Grown.buildInto (Grown.insert wellFormed_void (.element (.ofTag "body"))) pieces
  exact ⟨_, hgrown⟩

end Document

end ReactiveTemplate
