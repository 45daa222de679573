import NominalTypes.CommandLine.Answer
import NominalTypes.CommonAncestor
import NominalTypes.CoreLibrary
import NominalTypes.Pattern.Match

/-!
# Running commands

- `Invocation.run`: loads the universe files on top of the core library and answers the command.
- `RunError`: why there is no answer.
-/

namespace NominalTypes

/-- Why there is no answer. -/
inductive RunError where
  /-- The file cannot be read. -/
  | unreadable (file : String)
  /-- The file holds no universe. -/
  | malformed (file : String)
  /-- The universe in the file is refused. -/
  | refused (file : String) (error : UniverseError)
  /-- The text of a type is refused. -/
  | unresolved (text : String) (error : StoreError)
  | relation (error : RelationError)
  deriving DecidableEq, Repr

/-- The wording. -/
def RunError.message : RunError → String
  | .unreadable file => "failed to read universe file " ++ file
  | .malformed file => "in universe file " ++ file ++ ": invalid universe JSON"
  | .refused file error => "in universe file " ++ file ++ ": " ++ error.message
  | .unresolved text error => "cannot resolve type `" ++ text ++ "`: " ++ error.message
  | .relation error => error.message

/-- Operations on a store that end in an answer or in none. -/
abbrev Run := ExceptT RunError (StateM Store)

namespace Run

/-- The type that a text denotes. -/
def resolve (text : String) (vars : List String) : Run TypeId :=
  (Store.readPattern text vars).adapt (.unresolved text)

/-- The answer to a question about the types of the store. -/
def ask {α : Type} (question : Store → Except RelationError α) : Run α := do
  match question (← get) with
  | .ok answer => pure answer
  | .error error => throw (.relation error)

/-- Loads a universe file; `read` gives the content of a file that can be read. -/
def load (order : ScanOrder) (read : String → Option String) (file : String) : Run Unit := do
  match read file with
  | none => throw (.unreadable file)
  | some text =>
    match Universe.parse? text with
    | none => throw (.malformed file)
    | some u => (u.apply order).adapt (.refused file)

end Run

/-- The report on a type. -/
def Store.report (s : Store) (type : TypeId) : Except RelationError TypeReport := do
  let d ← s.descriptor type
  let a ← s.ancestry type
  return {
    name := s.display type
    qualified := s.fullLabel type
    kind := d.kind
    flags := d.flags
    definition := ((s.definitionOf? type).filter (· != type)).map s.display
    arguments := d.arguments.map s.display
    base := d.base.map s.display
    interfaces := d.interfaces.map s.display
    ancestry := a.members.tail.map fun (ancestor, distance) => (s.display ancestor, distance) }

/-- The answer to a command. -/
def Command.answer : Command → Run Answer
  | .assignable target candidate => do
    let target ← Run.resolve target []
    let candidate ← Run.resolve candidate []
    let holds ← Run.ask (·.accepts target candidate)
    let s ← get
    return .assignable (s.display target) (s.display candidate) holds
  | .generic definition candidate vars => do
    let definition ← Run.resolve definition vars
    let candidate ← Run.resolve candidate []
    let holds ← Run.ask (·.acceptsGenerically definition candidate)
    let s ← get
    return .generic (s.display definition) (s.display candidate) holds
  | .common types => do
    let types ← types.mapM fun text => Run.resolve text []
    let result ← Run.ask (·.lowestCommonAncestor types)
    let s ← get
    return .common (types.map s.display) (result.map s.display)
  | .match candidate pattern vars => do
    let candidate ← Run.resolve candidate []
    let pattern ← Run.resolve pattern vars
    let bindings ← Run.ask (·.matchBindings candidate pattern)
    let s ← get
    let shown := bindings.map fun b => b.entries.map fun (name, types) =>
      (name, types.map s.display)
    return .match (s.display candidate) (s.display pattern) shown
  | .static type => do
    let type ← Run.resolve type []
    let holds ← Run.ask (·.isStaticClass type)
    return .static ((← get).display type) holds
  | .show type => do
    let type ← Run.resolve type []
    return .show (← Run.ask (·.report type))

/-- Loads the universe files in their order and answers the command. -/
def Invocation.answer (order : ScanOrder) (read : String → Option String) (i : Invocation) :
    Run Answer := do
  i.universes.forM (Run.load order read)
  i.command.answer

/-- The answer to a command, starting from the core library. -/
def Invocation.run (read : String → Option String) (i : Invocation)
    (order : ScanOrder := .oldestFirst) : Except RunError Answer :=
  ((i.answer order read).run (Store.core order)).1

end NominalTypes
