import ReactiveTemplate.Decimal.Numeral

/-!
# Arguments of the command line

Arguments are options, which start with a hyphen, and positional ones. The value of an option follows
it or stands behind an equals sign; after a bare `--` all arguments are positional.
-/

namespace ReactiveTemplate.Command

/-- What an option takes, and how often it may be given. -/
inductive Arity where
  /-- No value, given once. -/
  | flag
  /-- A value, given once. -/
  | single
  /-- A value each time. -/
  | repeated
  deriving DecidableEq, Repr

/-- The long names of the options that are known. -/
abbrev Options := List (String × Arity)

/-- The positional arguments, and the options with their values, both in order. -/
structure Arguments where
  positionals : List String
  options : List (String × String)
  deriving Repr

namespace Arguments

/-- Whether an option was given. -/
def has (a : Arguments) (name : String) : Bool :=
  a.options.any (·.1 == name)

/-- The first value of an option. -/
def value? (a : Arguments) (name : String) : Option String :=
  a.options.lookup name

/-- All values of an option. -/
def values (a : Arguments) (name : String) : List String :=
  (a.options.filter (·.1 == name)).map Prod.snd

/-- The arguments with one more option; only a repeated one may be there already. -/
def add? (a : Arguments) (name : String) (arity : Arity) (value : String) : Option Arguments :=
  if a.has name && arity ≠ .repeated then none
  else some { a with options := a.options ++ [(name, value)] }

/-- Whether an argument is taken for an option. A single hyphen is not. -/
def looksLikeOption (argument : String) : Bool :=
  match argument.toList with
  | '-' :: _ :: _ => true
  | _ => false

/-- A long option, and the value that stands behind its equals sign. -/
def long? (argument : String) : Option (String × Option String) :=
  match argument.toList with
  | '-' :: '-' :: cs =>
    let name := String.ofList (cs.takeWhile (· ≠ '='))
    match cs.dropWhile (· ≠ '=') with
    | [] => some (name, none)
    | _ :: value => some (name, some (String.ofList value))
  | _ => none

/-- Reads arguments; `short` gives the long name of a short option. -/
def readInto? (known : Options) (short : String → Option String) (a : Arguments) :
    List String → Option Arguments
  | [] => some a
  | argument :: rest =>
    if argument = "--" then some { a with positionals := a.positionals ++ rest }
    else if !looksLikeOption argument then
      readInto? known short { a with positionals := a.positionals ++ [argument] } rest
    else
      match (long? argument).or ((short argument).map (·, none)) with
      | none => none
      | some (name, attached) =>
        match known.lookup name, attached with
        | none, _ => none
        | some .flag, some _ => none
        | some .flag, none => do readInto? known short (← a.add? name .flag "") rest
        | some arity, some value => do readInto? known short (← a.add? name arity value) rest
        | some arity, none =>
          match rest with
          | [] => none
          | value :: rest =>
            if looksLikeOption value then none
            else do readInto? known short (← a.add? name arity value) rest

end Arguments

/-- How a template is to be rendered. -/
structure RenderRequest where
  file : String
  data : Option String
  page : String
  mount : String
  sets : List String
  dispatches : List String
  methods : List String
  interval : Option Nat
  json : Bool

/-- A command with its arguments. -/
inductive Invocation where
  | eval (expression : String) (scope : Option String) (explain : Bool)
  | check (files : List String)
  | render (request : RenderRequest)

namespace Invocation

/-- The option that all commands know. -/
def common : Options := [("verbose", .flag)]

/-- The long name of a short option. -/
def short (argument : String) : Option String :=
  if argument = "-v" then some "verbose" else none

/-- Reads the arguments of a command. -/
def read? (known : Options) (arguments : List String) : Option Arguments :=
  Arguments.readInto? (common ++ known) short ⟨[], []⟩ arguments

/-- A whole number below 2^64, in digits behind an optional plus sign. -/
def milliseconds? (text : String) : Option Nat :=
  let digits := match text.toList with
    | '+' :: digits => digits
    | digits => digits
  let n := Decimal.ofDigits digits
  if digits ≠ [] ∧ digits.all Char.isDigit ∧ n < Nat.pow 2 64 then some n else none

/-- A page with a node that components are mounted at unless told otherwise. -/
def defaultPage : String := "<div id=\"app\"></div>"

/-- The selector of that node. -/
def defaultMount : String := "#app"

/-- Evaluates an expression. -/
def eval? (arguments : List String) : Option Invocation := do
  let a ← read? [("scope", .single), ("explain", .flag)] arguments
  match a.positionals with
  | [expression] => some (.eval expression (a.value? "scope") (a.has "explain"))
  | _ => none

/-- Checks template files. -/
def check? (arguments : List String) : Option Invocation := do
  let a ← read? [] arguments
  if a.positionals.contains "" then none else some (.check a.positionals)

/-- Renders a template file. -/
def render? (arguments : List String) : Option Invocation := do
  let a ← read?
    [("data", .single), ("page", .single), ("mount", .single), ("set", .repeated),
      ("dispatch", .repeated), ("method", .repeated), ("interval", .single), ("json", .flag)]
    arguments
  let interval ← match a.value? "interval" with
    | some text => (milliseconds? text).map some
    | none => some none
  match a.positionals with
  | [""] => none
  | [file] =>
    some <| .render
      { file
        data := a.value? "data"
        page := (a.value? "page").getD defaultPage
        mount := (a.value? "mount").getD defaultMount
        sets := a.values "set"
        dispatches := a.values "dispatch"
        methods := a.values "method"
        interval
        json := a.has "json" }
  | _ => none

/-- The command of a whole command line. The common option may stand before the command, once more. -/
def ofArguments? (arguments : List String) : Option Invocation :=
  let arguments := match arguments with
    | first :: rest => if first = "-v" ∨ first = "--verbose" then rest else arguments
    | [] => []
  match arguments with
  | "eval" :: rest => eval? rest
  | "check" :: rest => check? rest
  | "render" :: rest => render? rest
  | _ => none

end Invocation

end ReactiveTemplate.Command
