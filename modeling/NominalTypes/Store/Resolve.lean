import NominalTypes.Store.Instantiate

/-!
# Finding types by name

- `Store.lookup`: the declared type of a name and arity. Keywords come first, then qualified names,
  then simple names, which must not be ambiguous.
- `Store.resolveIn`: the type that an expression denotes where some names are parameters.
- `Store.readType`: the type that a text denotes.
- `Store.readPattern`: the type that a text denotes in which some names are free parameters.
-/

namespace NominalTypes

/-- Names that denote parameters; the first entry of a name counts. -/
abbrev Scope := List (String × TypeId)

namespace Store

/-- Another arity under which a name is declared: of its simple names first, then of its qualified
names, and the smallest of each. -/
def otherArity? (s : Store) (name : String) (arity : Nat) : Option Nat :=
  ((s.simpleNames.keys ++ s.qualifiedNames.keys).find? fun key =>
    key.1 == name && key.2 != arity).map Prod.snd

/-- Why a name and arity denote nothing. -/
def absence (s : Store) (name : String) (arity : Nat) : StoreError :=
  match s.otherArity? name arity with
  | some expected => .arityMismatch name expected arity
  | none => .unknownTypeName name

/-- The only declared type of a simple name. -/
def unambiguous (s : Store) (name : String) : List TypeId → Except StoreError TypeId
  | [type] => .ok type
  | types => .error (.ambiguousTypeName name (types.map s.qualifiedName))

/-- The type that a keyword stands for. Keywords have no arguments. -/
def aliased? (s : Store) (name : String) (arity : Nat) : Option TypeId :=
  if arity = 0 then s.aliases[name]? else none

/-- The declared type of a name and arity. -/
def lookup (s : Store) (name : String) (arity : Nat) : Except StoreError TypeId :=
  match s.aliased? name arity, s.qualifiedNames[(name, arity)]?, s.simpleNames[(name, arity)]? with
  | some type, _, _ => .ok type
  | none, some type, _ => .ok type
  | none, none, some types => s.unambiguous name types
  | none, none, none => .error (s.absence name arity)

/-- The declared type of a name and arity, as an operation. -/
def find (name : String) (arity : Nat) : Build TypeId := do
  match (← get).lookup name arity with
  | .ok type => pure type
  | .error error => throw error

mutual

/-- The type that an expression denotes. A name without arguments that is in scope is a parameter.
Instantiations that do not exist yet are created, and stay even if a later part fails. -/
def resolveIn (scope : Scope) : TypeExpr → Build TypeId
  | .named name [] =>
    match scope.lookup name with
    | some param => pure param
    | none => find name 0
  | .named name (arg :: rest) => do
    let definition ← find name (rest.length + 1)
    let first ← resolveIn scope arg
    let others ← resolveAllIn scope rest
    instantiate definition (first :: others)
  | .blanks name arity => do
    let definition ← find name arity
    let d ← Build.ask (·.descriptor definition)
    if d.isDefinition then pure definition else throw (.notGenericDefinition name)
  | .nullable inner => do
    let type ← resolveIn scope inner
    nullableForm type

/-- The types that the arguments after the first denote, from left to right. -/
def resolveAllIn (scope : Scope) : List TypeExpr → Build (List TypeId)
  | [] => pure []
  | arg :: rest => do
    let first ← resolveIn scope arg
    let others ← resolveAllIn scope rest
    pure (first :: others)

end

/-- The type that an expression without parameters denotes. -/
def resolve (expr : TypeExpr) : Build TypeId := resolveIn [] expr

/-- The expression that a text denotes. -/
def readExpr (text : String) : Build TypeExpr :=
  match TypeExpr.parse text with
  | .ok expr => pure expr
  | .error error => throw (.parse text error)

/-- The type that a text denotes where some names are parameters. -/
def readTypeIn (scope : Scope) (text : String) : Build TypeId := do
  let expr ← readExpr text
  resolveIn scope expr

/-- The type that a text denotes. -/
def readType (text : String) : Build TypeId := readTypeIn [] text

/-- The type that a text denotes in which some names are free parameters. -/
def readPattern (text : String) (vars : List String) : Build TypeId := do
  let expr ← readExpr text
  let params ← vars.mapM freeParameter
  resolveIn (vars.zip params) expr

end Store

end NominalTypes
