import ReactiveTemplate.Document.Element
import ReactiveTemplate.Document.NodeId

/-!
# Documents

A document keeps its nodes in slots. A slot that was freed is used again for a later node, with its
generation counted up, so that an id of a freed node never means another one. Parents and children
refer to each other by id. Operations that can be refused give the document after them in any case.

`L` is the type of the listeners that nodes carry.

Slots and generations are counted without a bound, as told of node ids. Left out are what operations write to a log,
and that several owners may hold one document: an operation here takes the document as it is.
-/

namespace ReactiveTemplate

variable {L : Type}

/-- What a node is. -/
inductive NodeData where
  | element (element : Element)
  | text (text : String)
  deriving DecidableEq, Repr

/-- A live node. -/
structure Node (L : Type) where
  parent : Option NodeId
  children : List NodeId
  data : NodeData
  /-- The listeners with the names of their events, in order of registration. -/
  listeners : List (String × L)

/-- A place for a node. -/
structure Slot (L : Type) where
  generation : Nat
  node : Option (Node L)

/-- Slots, the indexes of free ones with the last freed first, and the root of what is shown. -/
structure Document (L : Type) where
  slots : Array (Slot L)
  free : List Nat
  body : NodeId

namespace Document

/-! ### Nodes -/

/-- The live node of an id. -/
def node? (d : Document L) (n : NodeId) : Option (Node L) :=
  d.slots[n.index]?.bind fun slot => if slot.generation = n.generation then slot.node else none

/-- Whether an id means a live node. -/
def contains (d : Document L) (n : NodeId) : Bool :=
  (d.node? n).isSome

/-- The element of an id. -/
def element? (d : Document L) (n : NodeId) : Option Element :=
  match (d.node? n).map Node.data with
  | some (.element e) => some e
  | _ => none

/-- The text of a text node. -/
def text? (d : Document L) (n : NodeId) : Option String :=
  match (d.node? n).map Node.data with
  | some (.text text) => some text
  | _ => none

/-- The parent of a node. -/
def parent? (d : Document L) (n : NodeId) : Option NodeId :=
  (d.node? n).bind Node.parent

/-- The children of a node. -/
def children (d : Document L) (n : NodeId) : List NodeId :=
  match d.node? n with
  | some node => node.children
  | none => []

/-- The number of live nodes. -/
def nodeCount (d : Document L) : Nat :=
  d.slots.toList.countP (·.node.isSome)

/-- A node, its parent and so on upwards, at most `fuel` of them. -/
def lineageWithin (d : Document L) : (fuel : Nat) → NodeId → List NodeId
  | 0, _ => []
  | fuel + 1, n =>
    n :: match d.parent? n with
      | some parent => lineageWithin d fuel parent
      | none => []

/-- A node and all its ancestors upwards. -/
def lineage (d : Document L) (n : NodeId) : List NodeId :=
  d.lineageWithin (d.slots.size + 1) n

/-- Whether a node lies under the body or is the body. -/
def isAttached (d : Document L) (n : NodeId) : Bool :=
  d.body ∈ d.lineage n

/-! ### Slots -/

/-- A node in a slot: the one freed last, or else a new one. -/
def insert (d : Document L) (data : NodeData) : NodeId × Document L :=
  let node : Node L := ⟨none, [], data, []⟩
  match d.free with
  | index :: free =>
    let generation := (d.slots[index]?.map (·.generation + 1)).getD 0
    let slots := d.slots.setIfInBounds index ⟨generation, some node⟩
    (⟨index, generation⟩, { d with slots, free })
  | [] => (⟨d.slots.size, 0⟩, { d with slots := d.slots.push ⟨0, some node⟩ })

/-- The document with a live node changed; an id without one changes nothing. -/
def modify (d : Document L) (n : NodeId) (f : Node L → Node L) : Document L :=
  match d.node? n with
  | some node => { d with slots := d.slots.setIfInBounds n.index ⟨n.generation, some (f node)⟩ }
  | none => d

/-- The document with the slot of a live node emptied. -/
def release (d : Document L) (n : NodeId) : Document L :=
  match d.node? n with
  | some _ =>
    { d with slots := d.slots.setIfInBounds n.index ⟨n.generation, none⟩, free := n.index :: d.free }
  | none => d

/-- A node after all nodes below it, from the first child to the last, at most `fuel` levels deep. -/
def postorderWithin (d : Document L) : (fuel : Nat) → NodeId → List NodeId
  | 0, _ => []
  | fuel + 1, n => (d.children n).flatMap (postorderWithin d fuel) ++ [n]

/-- A node after all nodes below it. -/
def postorder (d : Document L) (n : NodeId) : List NodeId :=
  d.postorderWithin d.slots.size n

/-- The document without a node and all nodes below it. -/
def freeTree (d : Document L) (n : NodeId) : Document L :=
  (d.postorder n).foldl release d

/-- The document with a node taken out of its parent. -/
def detach (d : Document L) (n : NodeId) : Document L :=
  match d.parent? n with
  | some parent =>
    (d.modify parent fun p => { p with children := p.children.filter (· ≠ n) }).modify n fun node =>
      { node with parent := none }
  | none => d

/-! ### Operations -/

/-- The document whose body is empty. -/
def empty : Document L :=
  { slots := #[⟨0, some ⟨none, [], .element (.ofTag "body"), []⟩⟩]
    free := []
    body := ⟨0, 0⟩ }

/-- A new element outside the tree; its tag is in lowercase. -/
def createElement (d : Document L) (tag : String) : NodeId × Document L :=
  d.insert (.element (.ofTag (Markup.lowercase tag)))

/-- A new text outside the tree. -/
def createText (d : Document L) (text : String) : NodeId × Document L :=
  d.insert (.text text)

/-- An operation that can be refused, and the document after it. -/
abbrev Outcome (L : Type) := Except DocumentError Unit × Document L

/-- Runs `f` on the element of an id, or is refused. -/
def onElement (d : Document L) (n : NodeId) (f : Node L → Element → Node L) : Outcome L :=
  match d.node? n with
  | none => (.error (.staleNode n), d)
  | some node =>
    match node.data with
    | .element e => (.ok (), d.modify n fun node => f node e)
    | .text _ => (.error (.notAnElement n), d)

/-- Changes the data of an element. -/
def editElement (d : Document L) (n : NodeId) (f : Element → Element) : Outcome L :=
  d.onElement n fun node e => { node with data := .element (f e) }

/-- Sets an attribute. -/
def setAttribute (d : Document L) (n : NodeId) (name value : String) : Outcome L :=
  d.editElement n (·.setAttribute name value)

/-- Removes an attribute. -/
def removeAttribute (d : Document L) (n : NodeId) (name : String) : Outcome L :=
  d.editElement n (·.removeAttribute name)

/-- Adds a class. -/
def addClass (d : Document L) (n : NodeId) (name : String) : Outcome L :=
  d.editElement n (·.addClass name)

/-- Sets a style property, or removes it if no value is given. -/
def setStyle (d : Document L) (n : NodeId) (property : String) (value : Option String) : Outcome L :=
  d.editElement n (·.setStyle property value)

/-- Registers a listener for an event behind those that are there. -/
def addListener (d : Document L) (n : NodeId) (event : String) (listener : L) : Outcome L :=
  d.onElement n fun node _ => { node with listeners := node.listeners ++ [(event, listener)] }

/-- Makes a node the last child of an element, taking it out of its old parent. -/
def append (d : Document L) (parent child : NodeId) : Outcome L :=
  match d.node? parent with
  | none => (.error (.staleNode parent), d)
  | some node =>
    match node.data with
    | .text _ => (.error (.notAnElement parent), d)
    | .element _ =>
      if d.contains child then
        let d := d.detach child
        let d := d.modify parent fun p => { p with children := p.children ++ [child] }
        (.ok (), d.modify child fun c => { c with parent := some parent })
      else (.error (.staleNode child), d)

/-- Puts a node at the place of another, which is freed with all below it. The new node is taken out
of its parent first; if the old one has no parent, the new one stays outside the tree. -/
def replace (d : Document L) (old new : NodeId) : Outcome L :=
  if d.contains new then
    let d := d.detach new
    match d.node? old with
    | none => (.error (.staleNode old), d)
    | some node =>
      match node.parent with
      | none => (.ok (), d.freeTree old)
      | some parent =>
        if old ∈ d.children parent then
          let d := d.modify parent fun p => { p with children := p.children.replace old new }
          let d := d.modify new fun node => { node with parent := some parent }
          let d := d.modify old fun node => { node with parent := none }
          (.ok (), d.freeTree old)
        else (.error (.notAChild parent old), d)
  else (.error (.staleNode new), d)

/-- Frees a node with all below it. -/
def remove (d : Document L) (n : NodeId) : Outcome L :=
  if d.contains n then (.ok (), (d.detach n).freeTree n) else (.error (.staleNode n), d)

/-! ### Listeners -/

/-- The listeners of a node for an event, in order of registration. -/
def listenersAt (d : Document L) (n : NodeId) (event : String) : List L :=
  match d.node? n with
  | some node => (node.listeners.filter (·.1 == event)).map Prod.snd
  | none => []

/-- The listeners that an event on a node reaches: those of the node, then those of each ancestor. -/
def listenersFor (d : Document L) (n : NodeId) (event : String) : List L :=
  (d.lineage n).flatMap (d.listenersAt · event)

end Document

/-- Runs listeners one after another; the first error ends it. -/
def runListeners {m : Type → Type} [Monad m] {ε : Type} (run : L → m (Except ε Unit)) :
    List L → m (Except ε Unit)
  | [] => pure (.ok ())
  | listener :: rest => do
    match ← run listener with
    | .ok () => runListeners run rest
    | .error e => pure (.error e)

end ReactiveTemplate
