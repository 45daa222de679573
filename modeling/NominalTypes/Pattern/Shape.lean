import NominalTypes.Store.Basic

/-!
# Shapes of patterns

How a type behaves as a pattern depends on its shape.

| Shape | Example |
|-------|---------|
| variable | `T` |
| plain | `int` |
| nullable wrapper | `Nullable<T>`, `T?`, `int?` |
| definition | `IDictionary<,>` |
| facade | `IEnumerable<T>` with a free parameter `T` |
| instantiation | `List<int>`, `List<KeyValuePair<TKey, int>>` |

A facade is built from its definition, but as all its arguments are parameters, it stands for any
type that is built from the definition.

- `Shape`, `Store.shape`, `Shape.isOpenGeneric`.
-/

namespace NominalTypes

/-- The shape of a type as a pattern. -/
inductive Shape where
  | variable (name : String)
  | plain
  /-- The nullable wrapper; open if it is the definition or its argument is a parameter. -/
  | nullableWrapper (definition : TypeId) (isOpen : Bool)
  | definition (definition : TypeId)
  | facade (definition : TypeId)
  | instantiation (definition : TypeId)
  deriving DecidableEq, Repr

namespace Shape

/-- The generic definition behind the shape. -/
def definition? : Shape → Option TypeId
  | .variable _ | .plain => none
  | .nullableWrapper generic _ | .definition generic | .facade generic
  | .instantiation generic => some generic

/-- The shape stands for any type built from its definition. -/
def isOpenGeneric : Shape → Bool
  | .definition _ | .facade _ | .nullableWrapper _ true => true
  | _ => false

end Shape

/-- The shape of a type. -/
def Store.shape (s : Store) (type : TypeId) : Except RelationError Shape := do
  let d ← s.descriptor type
  if d.isParameter then return .variable d.name
  match s.definitionOf? type with
  | none => return .plain
  | some definition =>
    let isFacade := !d.isDefinition && d.arguments.all s.isParameter
    if s.roles.nullable = some definition then
      return .nullableWrapper definition (d.isDefinition || isFacade)
    else if d.isDefinition then return .definition definition
    else if isFacade then return .facade definition
    else return .instantiation definition

end NominalTypes
