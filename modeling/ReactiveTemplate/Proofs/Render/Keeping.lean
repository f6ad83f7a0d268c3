import ReactiveTemplate.Proofs.Fallible
import ReactiveTemplate.Proofs.Render.Steps

/-!
# What renders keep

A render acts on its document through a few operations. Whatever these operations keep is kept by the whole
render, however it ends. The handlers that it attaches are all made of actions of its template, also those in
branches and rounds that other data would not have shown.
-/

namespace ReactiveTemplate

open Json

variable {L : Type} {α β : Type}

/-- The event actions of an element. -/
def ElementHead.actions (head : ElementHead) : List (Action Expression Expression) :=
  head.directives.events.flatMap EventBinding.actions

namespace TemplateNode

mutual

/-- The elements of a node and of those below it, in the order of the markup. -/
def heads : TemplateNode → List ElementHead
  | text _ => []
  | element head children => head :: headsList children

/-- The elements of some nodes. -/
def headsList : List TemplateNode → List ElementHead
  | [] => []
  | node :: rest => heads node ++ headsList rest

end

mutual

/-- The event actions of a node are those of its elements. -/
theorem actions_eq (node : TemplateNode) : node.actions = node.heads.flatMap ElementHead.actions := by
  cases node with
  | text parts => rfl
  | element head children => rw [actions, heads, List.flatMap_cons, actionsList_eq children, ElementHead.actions]

/-- The event actions of some nodes are those of their elements. -/
theorem actionsList_eq (nodes : List TemplateNode) :
    actionsList nodes = (headsList nodes).flatMap ElementHead.actions := by
  cases nodes with
  | nil => rfl
  | cons node rest => rw [actionsList, headsList, List.flatMap_append, actions_eq node, actionsList_eq rest]

end

end TemplateNode

/-- All elements of a template, in the order of the markup. -/
def Template.heads (t : Template) : List ElementHead :=
  t.roots.flatMap fun (head, children) => (TemplateNode.element head children).heads

/-- The event actions of a template are those of its elements. -/
theorem Template.actions_eq (t : Template) : t.actions = t.heads.flatMap ElementHead.actions := by
  rw [actions, heads, List.flatMap_assoc]
  exact List.flatMap_congr fun root _ => TemplateNode.actions_eq _

/-- Every action of a handler is one of some actions of a template, with its arguments bound in some scope. -/
def Handler.From (resolver : Resolver) (actions : List (Action Expression Expression)) (handler : Handler) : Prop :=
  ∀ bound ∈ handler.actions, ∃ action ∈ actions, ∃ scope, action.boundIn resolver scope = .ok bound

/-- A handler from some actions is one from more. -/
theorem Handler.From.mono {resolver : Resolver} {actions actions' : List (Action Expression Expression)}
    {handler : Handler} (h : handler.From resolver actions) (hsub : actions ⊆ actions') :
    handler.From resolver actions' := by
  intro bound hbound
  obtain ⟨action, haction, hscope⟩ := h bound hbound
  exact ⟨action, hsub haction, hscope⟩

/-- The values of a mapping have the names that the mapping has. -/
theorem Mapping.exists_of_mem_valuesIn {resolver : Resolver} {scope : Scope} {m : Mapping}
    {values : List (String × Value)} (h : m.valuesIn resolver scope = .ok values) {entry : String × Value}
    (hentry : entry ∈ values) : ∃ source ∈ m, source.1 = entry.1 := by
  induction m generalizing values with
  | nil =>
    cases h
    cases hentry
  | cons first rest ih =>
    obtain ⟨value, _, h⟩ := ok_of_bind h
    obtain ⟨more, hmore, heq⟩ := ok_of_bind h
    cases heq
    rcases List.mem_cons.mp hentry with rfl | hrest
    · exact ⟨first, List.mem_cons_self, rfl⟩
    · obtain ⟨source, hsource, hname⟩ := ih hmore hrest
      exact ⟨source, List.mem_cons_of_mem _ hsource, hname⟩

namespace Render

/-- The operations that a render does keep a property of documents, when its handlers come from some actions. -/
structure KeptBySteps (s : Surroundings L) (actions : List (Action Expression Expression))
    (I : Document L → Prop) : Prop where
  createElement : ∀ {d} tag, I d → I (d.createElement tag).2
  createText : ∀ {d} text, I d → I (d.createText text).2
  editElement : ∀ {d} n f, I d → I (d.editElement n f).2
  addListener : ∀ {d} n event {handler : Handler}, handler.From s.resolver actions → I d →
    I (d.addListener n event (s.listener handler)).2
  append : ∀ {d} parent child, I d → I (d.append parent child).2
  remove : ∀ {d} n, I d → I (d.remove n).2

/-- The operations that a render does for some elements keep a property of documents: each with the tag, the
attributes, the class names or the events that an element has. -/
structure KeptByHeads (s : Surroundings L) (heads : List ElementHead) (I : Document L → Prop) : Prop where
  createElement : ∀ {d head}, head ∈ heads → I d → I (d.createElement head.tag).2
  createText : ∀ {d} text, I d → I (d.createText text).2
  setAttribute : ∀ {d head entry} n, head ∈ heads → entry ∈ head.attributes → I d →
    I (d.setAttribute n entry.1 entry.2).2
  addClass : ∀ {d head entry} n, head ∈ heads → entry ∈ head.directives.classes.getD [] → I d →
    I (d.addClass n entry.1).2
  setStyle : ∀ {d} n property value, I d → I (d.setStyle n property value).2
  addListener : ∀ {d head binding} n {handler : Handler}, head ∈ heads → binding ∈ head.directives.events →
    handler.From s.resolver binding.actions → I d → I (d.addListener n binding.event (s.listener handler)).2
  append : ∀ {d} parent child, I d → I (d.append parent child).2
  remove : ∀ {d} n, I d → I (d.remove n).2

/-- What all operations keep is kept by those for some elements, if the actions of these are among those that
the handlers come from. -/
theorem KeptBySteps.keptByHeads {s : Surroundings L} {actions : List (Action Expression Expression)}
    {I : Document L → Prop} (hI : KeptBySteps s actions I) {heads : List ElementHead}
    (hactions : heads.flatMap ElementHead.actions ⊆ actions) : KeptByHeads s heads I where
  createElement _ := hI.createElement _
  createText := hI.createText
  setAttribute _ _ _ := hI.editElement _ _
  addClass _ _ _ := hI.editElement _ _
  setStyle _ _ _ := hI.editElement _ _
  addListener _ _ hhead hbinding hfrom :=
    hI.addListener _ _ (hfrom.mono fun _ haction =>
      hactions (List.mem_flatMap.mpr ⟨_, hhead, List.mem_flatMap.mpr ⟨_, hbinding, haction⟩⟩))
  append := hI.append
  remove := hI.remove

/-- A step keeps a property of the document. -/
def Keeps (I : Document L → Prop) (m : Render L α) : Prop :=
  ∀ st, I st.document → I (m.outcome st).2.document

namespace Keeps

variable {I : Document L → Prop}

/-- Steps that only look names up keep everything. -/
theorem quiet {m : Render L α} {r : Except Error α} (h : Quiet m r) : Keeps I m := by
  intro st hst
  rwa [(h st).2]

/-- Giving a value keeps everything. -/
theorem pure (a : α) : Keeps I (pure a : Render L α) :=
  fun _ hst => hst

/-- Failing keeps everything. -/
theorem throw (e : Error) : Keeps I (throw e : Render L α) :=
  fun _ hst => hst

/-- One step after another. -/
theorem bind {m : Render L α} {f : α → Render L β} (hm : Keeps I m) (hf : ∀ a, Keeps I (f a)) :
    Keeps I (m >>= f) := by
  intro st hst
  have hafter := hm st hst
  rw [outcome_bind]
  generalize m.outcome st = out at hafter
  obtain ⟨e | a, after⟩ := out
  · exact hafter
  · exact hf a after hafter

/-- A step after one that only looks names up. -/
theorem quiet_bind {m : Render L α} {r : Except Error α} {f : α → Render L β} (hm : Quiet m r)
    (hf : ∀ a, r = .ok a → Keeps I (f a)) : Keeps I (m >>= f) := by
  intro st hst
  obtain ⟨hresult, hdocument⟩ := hm st
  rw [← hdocument] at hst
  rw [outcome_bind]
  generalize m.outcome st = out at hresult hst
  obtain ⟨e | a, after⟩ := out
  · exact hst
  · exact hf a hresult.symm after hst

/-- A step for each item of a list. -/
theorem forM {f : α → Render L PUnit} {as : List α} (hf : ∀ a ∈ as, Keeps I (f a)) : Keeps I (as.forM f) := by
  induction as with
  | nil => exact pure _
  | cons a rest ih =>
    exact (hf a List.mem_cons_self).bind fun _ => ih fun b hb => hf b (List.mem_cons_of_mem _ hb)

/-- A step whose error is handled. -/
theorem tryCatch {m : Render L α} {f : Error → Render L α} (hm : Keeps I m) (hf : ∀ e, Keeps I (f e)) :
    Keeps I (tryCatch m f) := by
  intro st hst
  have hafter := hm st hst
  rw [outcome_tryCatch]
  generalize m.outcome st = out at hafter
  obtain ⟨e | a, after⟩ := out
  · exact hf e after hafter
  · exact hafter

/-- An operation on the document. -/
theorem edit {operation : Document L → Document.Outcome L} (h : ∀ {d}, I d → I (operation d).2) :
    Keeps I (edit operation) := by
  intro st hst
  have hafter : I (operation st.document).2 := h hst
  have hget : (get : Render L (RenderState L)).outcome st = (.ok st, st) := rfl
  rw [Render.edit, outcome_bind, hget]
  dsimp only
  generalize operation st.document = out at hafter
  obtain ⟨result, document⟩ := out
  cases result with
  | ok u => exact hafter
  | error e => exact hafter

/-- An operation that makes a node. -/
theorem make {operation : Document L → NodeId × Document L} (h : ∀ {d}, I d → I (operation d).2) :
    Keeps I (make operation) :=
  fun _ hst => h hst

/-- Nodes are taken away. -/
theorem discard (h : ∀ {d} n, I d → I (d.remove n).2) (nodes : List NodeId) : Keeps I (discard nodes) := by
  intro st hst
  change I (nodes.foldl (fun d n => (d.remove n).2) st.document)
  generalize st.document = d at hst ⊢
  induction nodes generalizing d with
  | nil => exact hst
  | cons n rest ih => exact ih _ (h n hst)

end Keeps

variable {s : Surroundings L} {heads : List ElementHead} {I : Document L → Prop}

/-- Copies of an element are dressed. -/
theorem keeps_dress (hI : KeptByHeads s heads I) (scope : Scope) (n : NodeId) {head : ElementHead}
    (hhead : head ∈ heads) : Keeps I (dress s scope n head) := by
  refine Keeps.bind (.forM fun entry hentry => ?_) fun _ => ?_
  · exact .edit fun hd => hI.setAttribute n hhead hentry hd
  refine .quiet_bind (quiet_evaluateMapping s scope _) fun classes hclasses => ?_
  refine Keeps.bind (.forM fun entry hentry => ?_) fun _ => ?_
  · obtain ⟨source, hsource, hname⟩ := Mapping.exists_of_mem_valuesIn hclasses hentry
    dsimp only
    split
    · exact .edit fun hd => hname ▸ hI.addClass n hhead hsource hd
    · exact .pure _
  refine (Keeps.quiet (quiet_evaluateMapping s scope _)).bind fun styles => ?_
  refine Keeps.bind (.forM fun entry _ => ?_) fun _ => ?_
  · exact .edit fun hd => hI.setStyle _ _ _ hd
  refine .forM fun binding hbinding => ?_
  refine .quiet_bind (.mapM (quiet_bindAction s scope) _) fun bound hbound => ?_
  have hfrom : Handler.From s.resolver binding.actions ⟨binding.event, bound⟩ := by
    intro action haction
    obtain ⟨source, hsource, hscope⟩ := exists_of_mem_mapM hbound haction
    exact ⟨source, hsource, scope, hscope⟩
  refine Keeps.bind (fun st hst => hst) fun _ => ?_
  exact .edit fun hd => hI.addListener n hhead hbinding hfrom hd

/-- One copy of an element. -/
theorem keeps_copy (hI : KeptByHeads s heads I) {head : ElementHead} (hhead : head ∈ heads)
    {fill : Scope → NodeId → Render L Unit} (hfill : ∀ scope n, Keeps I (fill scope n)) (scope : Scope) :
    Keeps I (copy s head fill scope) := by
  refine (Keeps.make (hI.createElement hhead)).bind fun n => ?_
  refine (Keeps.tryCatch ((keeps_dress hI scope n hhead).bind fun _ => hfill scope n) fun e => ?_).bind
    fun _ => .pure _
  exact (Keeps.discard hI.remove _).bind fun _ => .throw e

/-- All copies of an element. -/
theorem keeps_copies (hI : KeptByHeads s heads I) (scope : Scope) {head : ElementHead} (hhead : head ∈ heads)
    {fill : Scope → NodeId → Render L Unit} (hfill : ∀ scope n, Keeps I (fill scope n)) (st : RenderState L)
    (hst : I st.document) : I ((copies s scope head fill).run st).2.document := by
  have heach (scopes : List Scope) (st : RenderState L) (hst : I st.document) :
      I ((copyEach s head fill scopes).run st).2.document := by
    induction scopes generalizing st with
    | nil => exact hst
    | cons scope rest ih =>
      have hafter := keeps_copy hI hhead hfill scope st hst
      rw [copyEach, run_run_bind]
      generalize (copy s head fill scope).outcome st = out at hafter
      obtain ⟨e | n, after⟩ := out
      · exact hafter
      · exact ih after hafter
  have hafter : I ((scopes s scope head.directives).outcome st).2.document :=
    Keeps.quiet (quiet_scopes s scope head.directives) st hst
  rw [copies, run_run_bind]
  generalize (scopes s scope head.directives).outcome st = out at hafter
  obtain ⟨e | scopes, after⟩ := out
  · exact hafter
  · exact heach scopes after hafter

/-- Copies are added to an element. -/
theorem keeps_attach (hI : KeptByHeads s heads I) (parent : NodeId) (copies : Copies) :
    Keeps I (attach parent copies) := by
  refine (Keeps.forM fun n _ => .edit (hI.append _ _)).bind fun _ => ?_
  split
  · exact .throw _
  · exact .pure _

mutual

/-- A node of a template is added. -/
theorem keeps_child (hI : KeptByHeads s heads I) (scope : Scope) (parent : NodeId) {node : TemplateNode}
    (hheads : node.heads ⊆ heads) : Keeps I (child s scope parent node) := by
  cases node with
  | text parts =>
    rw [child]
    refine (Keeps.quiet (quiet_interpolate s scope parts)).bind fun text => ?_
    exact (Keeps.make (hI.createText _)).bind fun n => .edit (hI.append _ _)
  | element head nodes =>
    rw [TemplateNode.heads, List.cons_subset] at hheads
    rw [child]
    have hfill (scope : Scope) (n : NodeId) := keeps_children hI scope n hheads.2
    exact Keeps.bind (fun st hst => keeps_copies hI scope hheads.1 hfill st hst) fun made =>
      keeps_attach hI parent made

/-- Nodes of a template are added. -/
theorem keeps_children (hI : KeptByHeads s heads I) (scope : Scope) (parent : NodeId) {nodes : List TemplateNode}
    (hheads : TemplateNode.headsList nodes ⊆ heads) : Keeps I (children s scope parent nodes) := by
  cases nodes with
  | nil => exact .pure _
  | cons node rest =>
    rw [TemplateNode.headsList, List.append_subset] at hheads
    rw [children]
    exact (keeps_child hI scope parent hheads.1).bind fun _ => keeps_children hI scope parent hheads.2

end

/-- The copies of all top-level elements. -/
theorem keeps_rootCopies (hI : KeptByHeads s heads I) {roots : List (ElementHead × List TemplateNode)}
    (hheads : ∀ root ∈ roots, (TemplateNode.element root.1 root.2).heads ⊆ heads) (st : RenderState L)
    (hst : I st.document) : I ((rootCopies s roots).run st).2.document := by
  induction roots generalizing st with
  | nil => exact hst
  | cons root rest ih =>
    obtain ⟨head, nodes⟩ := root
    have hroot := hheads _ List.mem_cons_self
    rw [TemplateNode.heads, List.cons_subset] at hroot
    have hafter := keeps_copies hI .empty hroot.1 (fun scope n => keeps_children hI scope n hroot.2) st hst
    rw [rootCopies, StateT.run_bind]
    generalize StateT.run (copies s .empty head fun scope n => children s scope n nodes) st = out at hafter
    obtain ⟨⟨made, failure⟩, after⟩ := out
    cases failure with
    | some e => exact hafter
    | none => exact ih (fun other hmem => hheads other (List.mem_cons_of_mem _ hmem)) after hafter

/-- The steps of a render leave the body the body. -/
theorem keptBySteps_body (s : Surroundings L) (actions : List (Action Expression Expression)) (body : NodeId) :
    KeptBySteps s actions (·.body = body) where
  createElement _ h := (Document.body_insert _ _).trans h
  createText _ h := (Document.body_insert _ _).trans h
  editElement _ _ h := (Document.body_onElement _ _ _).trans h
  addListener _ _ _ _ h := (Document.body_onElement _ _ _).trans h
  append _ _ h := (Document.body_append _ _ _).trans h
  remove _ h := (Document.body_remove _ _).trans h

end Render

/-- What the operations of a render keep that it does for the elements of its template, the render keeps. -/
theorem Template.render_keeps_heads (t : Template) {s : Surroundings L} {I : Document L → Prop}
    (hI : Render.KeptByHeads s t.heads I) : Render.Keeps I (t.render s) := by
  have hheads : ∀ root ∈ t.roots, (TemplateNode.element root.1 root.2).heads ⊆ t.heads :=
    fun root hroot _ hhead => List.mem_flatMap.mpr ⟨root, hroot, hhead⟩
  refine Render.Keeps.bind (fun st hst => Render.keeps_rootCopies hI hheads st hst) fun made => ?_
  split
  · exact .pure _
  · exact (Render.Keeps.discard hI.remove _).bind fun _ => .throw _
  · exact (Render.Keeps.discard hI.remove _).bind fun _ => .throw _

/-- What the operations of a render keep, the render keeps. -/
theorem Template.render_keeps (t : Template) {s : Surroundings L} {I : Document L → Prop}
    (hI : Render.KeptBySteps s t.actions I) : Render.Keeps I (t.render s) :=
  t.render_keeps_heads (hI.keptByHeads fun _ haction => t.actions_eq ▸ haction)

end ReactiveTemplate
