import NominalTypes.Hierarchy.BaseChain

/-!
# Ancestries

The ancestry of a type is the type itself and all types it can be widened to, each with its
distance, in the order of a breadth-first walk over base types and interfaces.

- `Ancestry`, `Store.ancestry`.
- `Store.nearestBuiltFrom`: the nearest type in an ancestry that is built from a definition.
- `maxAncestrySize`: the walk looks above no further type once it knows this many.
-/

namespace NominalTypes

/-- A walk looks above a type only if fewer types than this are known so far. -/
def maxAncestrySize : Nat := 4096

/-- A type with everything it can be widened to. -/
structure Ancestry where
  /-- The type itself, then its base types up to the root. -/
  chain : List TypeId
  /-- Every type reached with its distance, nearest first. -/
  members : List (TypeId × Nat)

namespace Ancestry

/-- The types of the ancestry, nearest first. -/
def types (a : Ancestry) : List TypeId := a.members.map Prod.fst

/-- How many steps up a type is found. -/
def distance? (a : Ancestry) (type : TypeId) : Option Nat := a.members.lookup type

/-- The type is in the ancestry. -/
def contains (a : Ancestry) (type : TypeId) : Bool := (a.distance? type).isSome

/-- Number of types. -/
def size (a : Ancestry) : Nat := a.members.length

/-- No ancestry of a type is empty. -/
def isEmpty (a : Ancestry) : Bool := a.members.isEmpty

end Ancestry

namespace Store

/-- Looks at the supertypes of a type at a distance, unless too many types are known already.
`found` holds all types known so far, the last one first. -/
def lookAbove (s : Store) (distance : Nat) (found : List (TypeId × Nat)) (type : TypeId) :
    Except RelationError (List (TypeId × Nat)) :=
  if found.length ≥ maxAncestrySize then .ok found
  else do
    let d ← s.descriptor type
    return d.supertypes.foldl
      (fun found t => if (found.lookup t).isSome then found else (t, distance + 1) :: found) found

/-- Walks upwards level by level: looks above every type found at a distance, in the order of their
discovery, and then goes on with the next distance. -/
def walk (s : Store) : Nat → Nat → List (TypeId × Nat) →
    Except RelationError (List (TypeId × Nat))
  | 0, _, found => .ok found
  | levels + 1, distance, found =>
    match ((found.takeWhile (·.2 == distance)).map Prod.fst).reverse with
    | [] => .ok found
    | level => do
      let found ← level.foldlM (s.lookAbove distance) found
      s.walk levels (distance + 1) found

/-- The ancestry of a type. -/
def ancestry (s : Store) (type : TypeId) : Except RelationError Ancestry := do
  let chain ← s.baseChain type
  let found ← s.walk maxDistance 0 [(type, 0)]
  return ⟨chain, found.reverse⟩

/-- The nearest type among a type and its supertypes that is built from a definition. -/
def nearestBuiltFrom (s : Store) (type definition : TypeId) :
    Except RelationError (Option TypeId) := do
  let _ ← s.descriptor type
  if s.definitionOf? type = some definition then return some type
  else do
    let a ← s.ancestry type
    return a.types.find? fun ancestor => s.definitionOf? ancestor == some definition

end Store

end NominalTypes
