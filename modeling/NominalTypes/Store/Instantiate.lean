import NominalTypes.Store.Label

/-!
# Instantiating generic definitions

An instantiation is a generic definition applied to arguments. Its supertypes are those of the
definition with the parameters replaced, which may be instantiations that do not exist yet. Each
instantiation is registered before its supertypes are computed, so that a definition may mention
itself, and each is created once, so that two types are the same exactly if their handles are.

- `Store.instantiate`: the type of a definition and arguments.
- `Store.nullableForm`: the nullable form of a type.
- `Store.freeParameter`: the free parameter of a name.
- `maxInstantiationDepth`: how far supertypes may lead to new instantiations.
- `Store.substitute`, `Store.substituteSupertypes`: replacement of parameters.
-/

namespace NominalTypes

/-- Supertypes of a new instantiation may lead to further new ones this many times in a row. -/
def maxInstantiationDepth : Nat := 50

namespace Store

/-- The argument that takes the place of a parameter. -/
def assigned? (params args : List TypeId) (type : TypeId) : Option TypeId :=
  (params.zip args).lookup type

/-- The type with every parameter replaced by its argument. A definition met on the way stands for
itself applied to its own parameters. `instantiate` applies definitions to replaced arguments. The
arguments of an instantiation are older than itself, so the walk down its arguments ends. -/
def substitute (instantiate : TypeId → List TypeId → Build TypeId) (params args : List TypeId)
    (type : TypeId) : Build TypeId :=
  match assigned? params args type with
  | some arg => pure arg
  | none => do
    let d ← Build.ask (·.descriptor type)
    if d.hasOpenArguments then
      match d.origin with
      | .definition inner =>
        let replaced := inner.map fun param => (assigned? params args param).getD param
        if replaced = inner then pure type else instantiate type replaced
      | .instantiation definition inner _ => do
        let replaced ← inner.mapM fun arg =>
          if arg < type then substitute instantiate params args arg else pure arg
        if replaced = inner then pure type else instantiate definition replaced
      | _ => pure type
    else pure type
termination_by type

/-- Fills in the supertypes of an instantiation: those of its definition, with the parameters
replaced by the arguments. -/
def substituteSupertypes (instantiate : TypeId → List TypeId → Build TypeId)
    (definition type : TypeId) : Build Unit := do
  let generic ← Build.ask (·.descriptor definition)
  let built ← Build.ask (·.descriptor type)
  let replace := substitute instantiate generic.arguments built.arguments
  let base ← generic.base.mapM replace
  let interfaces ← generic.interfaces.mapM replace
  modify fun s => s.setSupertypes type base interfaces

/-- Registers a new instantiation whose supertypes are still to be computed. -/
def register (s : Store) (generic : Descriptor) (definition : TypeId) (args : List TypeId)
    (isOpen : Bool) : Store :=
  let d := Descriptor.bare generic.name generic.qualifier generic.kind generic.modifiers
    (.instantiation definition args isOpen)
  { s.push d with instantiations := s.instantiations.insert (definition, args) s.size }

/-- The type of a definition and arguments. New instantiations may follow one another `levels`
times, this one counted. -/
def instantiateWithin : Nat → TypeId → List TypeId → Build TypeId
  | 0, definition, _ => do
    throw (.instantiationTooDeep ((← get).display definition))
  | levels + 1, definition, args => do
    let generic ← Build.ask (·.descriptor definition)
    match generic.origin with
    | .definition params =>
      if params.length ≠ args.length then
        throw (.arityMismatch ((← get).display definition) params.length args.length)
      else if params = args then pure definition
      else do
        let described ← args.mapM fun arg => Build.ask (·.descriptor arg)
        let s ← get
        match s.instantiations[(definition, args)]? with
        | some existing => pure existing
        | none => do
          set (s.register generic definition args (described.any Descriptor.isOpen))
          substituteSupertypes (instantiateWithin levels) definition s.size
          pure s.size
    | _ => throw (.notGenericDefinition ((← get).display definition))

/-- The type of a definition and arguments: an existing one if there is one, and the definition
itself if the arguments are its own parameters. -/
def instantiate (definition : TypeId) (args : List TypeId) : Build TypeId :=
  Build.atomic (instantiateWithin (maxInstantiationDepth + 1) definition args)

/-- The nullable form of a type. -/
def nullableForm (type : TypeId) : Build TypeId := do
  match (← get).roles.nullable with
  | some definition => instantiate definition [type]
  | none => throw .missingNullableDefinition

/-- The free parameter of a name, as a method declares it. There is one for each name. -/
def freeParameter (name : String) : Build TypeId := do
  Build.meet [name]
  let s ← get
  match s.freeParameters[name]? with
  | some existing => pure existing
  | none => do
    set { s.push (.parameter name .methodParameter) with
      freeParameters := s.freeParameters.insert name s.size }
    pure s.size

end Store

end NominalTypes
