import ReactiveTemplate.Document.NodeId
import ReactiveTemplate.Json.Value

/-!
# Scripts for a page

A script drives a page from outside, step by step. Listeners that a script adds follow scripts of
their own, and components that it builds have methods and hooks made of actions.
-/

namespace ReactiveTemplate.Page

open Json

/-- How a script names a node. -/
inductive NodeRef where
  /-- A node stored under a name; `body` is the body. -/
  | named (name : String)
  /-- The first element that a selector means. -/
  | matching (selector : String)
  /-- The root of a component. -/
  | rootOf (component : String)
  /-- A child, counted from zero. -/
  | child (parent : NodeRef) (position : Nat)
  /-- An id, whether it is live or not. -/
  | exactly (id : NodeId)
  deriving Inhabited, Repr

/-- What can be asked about a node. -/
inductive Question where
  | children
  | parent
  | contains
  | attached
  | tag
  | text
  | textContent
  | attribute (name : String)
  | hasClass (name : String)
  | classes
  | style (property : String)
  | listenerCount (event : String)
  | outerHtml
  | innerHtml
  | snapshot
  deriving Repr

/-- What can be done to a single node. -/
inductive Edit where
  | setAttribute (name value : String)
  | removeAttribute (name : String)
  | addClass (name : String)
  /-- No value removes the property. -/
  | setStyle (property : String) (value : Option String)
  | remove
  deriving Repr

/-- Where an action takes a value from. -/
inductive Source where
  /-- An argument of the method, counted from zero; null if there is none. -/
  | argument (position : Nat)
  | expression (source : String)
  | given (value : Value)

/-- What a method or a hook does. -/
inductive Act where
  | set (field : String) (source : Source)
  /-- Fails as the call of an unknown method does. -/
  | fail (method : String)
  | render
  | requestFollowUp
  /-- Takes the request for a deferred action, and if there was one does some actions. -/
  | takeFollowUp (acts : List Act)
  | dispatch (selector event : String)
  | remove (selector : String)

/-- Where a script mounts a component. -/
inductive MountRef where
  | selector (text : String)
  | node (ref : NodeRef)

/-- What a script builds a component from. -/
structure Plan where
  mount : MountRef
  name : Option String
  template : Option String
  data : Value
  interval : Nat
  methods : List (String × List Act)
  /-- The source of each computed field. -/
  computed : List (String × String)
  hook : Option (List Act)

/-- What can be asked of a component. -/
inductive Request where
  | set (field : String) (value : Value)
  | get (field : String)
  | data
  | evaluate (source : String)
  | computed (field : String)
  | render
  | requestFollowUp
  | takeFollowUp
  | takeError
  | name

/-- A step of a script. `store` names the place where a new node or component is kept, and `file` the
file under which an error is reported. -/
inductive Step where
  | body
  | createElement (tag : String) (store : Option String)
  | createText (text : String) (store : Option String)
  | ask (node : NodeRef) (question : Question)
  | edit (node : NodeRef) (edit : Edit)
  | append (node child : NodeRef)
  | replace (node new : NodeRef)
  | query (selector : String) (store : Option String)
  | dispatch (node : NodeRef) (event : String) (detail : Value)
  /-- Adds a listener that follows a script, and then fails if a message is given. -/
  | listen (node : NodeRef) (event : String) (label failure : Option String) (steps : List Step)
  | advance (milliseconds : Nat)
  | idle
  | timers
  | build (store : String) (file : Option String) (plan : Plan)
  /-- Forgets a component. -/
  | drop (component : String)
  | component (name : String) (file : Option String) (request : Request)

end ReactiveTemplate.Page
