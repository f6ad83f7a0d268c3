import ReactiveTemplate.Command.Render

/-!
# The command line

`Command.run` does what a command line asks for: it evaluates an expression, checks that templates
compile, or renders one.
-/

namespace ReactiveTemplate.Command

open Json

variable {m : Type → Type} [Monad m]

/-- Evaluates an expression over the members of a JSON object. -/
def evaluate (files : FileReader m) (source : String) (scope : Option String) (explain : Bool) :
    Work m Nat := do
  let members ← match scope with
    | some argument => Work.readObject files "--scope" argument
    | none => pure []
  let result : Except Error (Expression × Value) := do
    let e ← (Expression.compile source).mapError .compile
    let value ← (e.eval .empty fun name => members.lookup name).mapError .resolution
    pure (e, value)
  match result with
  | .ok (e, value) =>
    if explain then Work.print (e.tree.grouping ++ "\n")
    Work.print (value.compact ++ "\n")
    pure 0
  | .error e =>
    Work.complain (e.report "<expression>")
    pure 1

/-- The methods that actions call, each once. -/
def calledMethods (actions : List (Action Expression Expression)) : List String :=
  actions.foldl
    (fun methods action =>
      match action with
      | .invoke method _ => if method ∈ methods then methods else methods ++ [method]
      | .assign _ _ => methods)
    []

/-- What a template that compiles contains. -/
def summary (t : Template) (cache : CompileCache) : String :=
  let counts := s!"{cache.expressions.length} expressions, {cache.mappings.length} mappings"
  match calledMethods t.actions with
  | [] => counts
  | methods => counts ++ ", calls " ++ ", ".intercalate methods

/-- Checks a template file: whether it compiles. -/
def checkFile (files : FileReader m) (file : String) : Work m Bool := do
  let source ← Work.fileText files file
  match Template.compile source .empty with
  | (.ok t, cache) =>
    Work.print s!"{file}: ok ({summary t cache})\n"
    let roots := t.roots.length
    if roots ≠ 1 then
      Work.complain s!"{file}: warning: {roots} top-level elements, a component renders exactly one\n"
    pure true
  | (.error e, _) =>
    Work.complain (e.report file)
    pure false

/-- Checks template files. -/
def check (files : FileReader m) (names : List String) : Work m Nat := do
  let results ← names.mapM (checkFile files)
  match results.count false with
  | 0 => pure 0
  | failed =>
    Work.complain s!"\n{failed} of {names.length} templates failed\n"
    pure 1

/-- Renders a template file. -/
def render (files : FileReader m) (request : RenderRequest) : Work m Nat := do
  let plan ← RenderPlan.ofRequest files request
  let (result, calls) := plan.result
  Work.complain calls
  match result with
  | .ok text =>
    Work.print (text ++ "\n")
    pure 0
  | .error message =>
    Work.complain (message ++ "\n")
    pure 1

/-- Does what an invocation asks for; gives the exit status. -/
def perform (files : FileReader m) : Invocation → Work m Nat
  | .eval expression scope explain => evaluate files expression scope explain
  | .check names => check files names
  | .render request => render files request

/-- How the command line is used. -/
def usage : String :=
  "Usage: [-v] eval EXPRESSION [--scope JSON] [--explain]\n" ++
  "       [-v] check [FILE]...\n" ++
  "       [-v] render FILE [--data JSON] [--page MARKUP] [--mount SELECTOR] [--set FIELD=JSON]...\n" ++
  "            [--dispatch SELECTOR@EVENT]... [--method NAME]... [--interval MILLISECONDS] [--json]\n"

/-- Runs a command line. -/
def run (files : FileReader m) (arguments : List String) : m Outcome := do
  match Invocation.ofArguments? arguments with
  | none => pure ⟨2, "", usage⟩
  | some invocation =>
    let (result, t) ← (perform files invocation).run.run ⟨"", ""⟩
    match result with
    | .ok status => pure ⟨status, t.output, t.errors⟩
    | .error failure => pure ⟨1, t.output, t.errors ++ failure.report⟩

end ReactiveTemplate.Command
