import NominalTypes.Store.Basic

/-!
# Base chains

- `Descriptor.supertypes`: the direct supertypes of a type, its base type first.
- `Store.baseChain`: a type, its base type, the base type of that, and so on.
- `maxDistance`: how far walks up the hierarchy go.
-/

namespace NominalTypes

/-- Walks follow this many supertypes in a row. Hierarchies of real programs are far from it. -/
def maxDistance : Nat := 256

/-- The direct supertypes of a type: the base type, then the interfaces as declared. -/
def Descriptor.supertypes (d : Descriptor) : List TypeId := d.base.toList ++ d.interfaces

namespace Store

/-- At most `length` types of the base chain from a type on. The chain ends early in front of a type
that has been `seen` on it. -/
def baseChainFrom (s : Store) : Nat → List TypeId → TypeId → Except RelationError (List TypeId)
  | 0, _, _ => .ok []
  | length + 1, seen, type =>
    if type ∈ seen then .ok []
    else do
      let d ← s.descriptor type
      match d.base with
      | none => return [type]
      | some base => return type :: (← s.baseChainFrom length (type :: seen) base)

/-- The type itself, its base type, and so on up to the root. -/
def baseChain (s : Store) (type : TypeId) : Except RelationError (List TypeId) :=
  s.baseChainFrom (maxDistance + 1) [] type

end Store

end NominalTypes
