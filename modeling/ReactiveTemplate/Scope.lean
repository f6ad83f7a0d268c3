import ReactiveTemplate.Json.Value

/-!
# Lexical scopes

A scope is the list of frames that loops have opened around a place in a template. A name means its
innermost binding; a name that no frame binds is looked up by a resolver behind the scope.
-/

namespace ReactiveTemplate

open Json

/-- The bindings of one layer, each name once. -/
abbrev Frame := Dictionary Value

/-- What stands behind a scope. -/
abbrev Resolver := String → Option Value

/-- Frames, the innermost first. -/
structure Scope where
  frames : List Frame

namespace Scope

/-- The scope without frames. -/
def empty : Scope := ⟨[]⟩

/-- The scope with one more frame inside. -/
def push (frame : Frame) (scope : Scope) : Scope :=
  ⟨frame :: scope.frames⟩

/-- The innermost frame and the scope around it. -/
def pop? (scope : Scope) : Option (Frame × Scope) :=
  match scope.frames with
  | [] => none
  | frame :: frames => some (frame, ⟨frames⟩)

/-- The innermost binding of a name. -/
def find? (scope : Scope) (name : String) : Option Value :=
  scope.frames.findSome? (·.lookup name)

/-- The number of frames. -/
def depth (scope : Scope) : Nat :=
  scope.frames.length

/-- The meaning of a name: its innermost binding, or what the resolver says. -/
def resolve (scope : Scope) (resolver : Resolver) (name : String) : Option Value :=
  (scope.find? name).or (resolver name)

/-- The same names in the same order with the same values, frame by frame. -/
def same (a b : Scope) : Bool :=
  go a.frames b.frames
where
  /-- Frame by frame. -/
  go : List Frame → List Frame → Bool
    | [], [] => true
    | a :: as, b :: bs =>
      a.names == b.names && Value.sameItems (a.map Prod.snd) (b.map Prod.snd) && go as bs
    | _, _ => false

end Scope

end ReactiveTemplate
