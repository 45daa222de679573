import NominalTypes.Hierarchy.BaseChain

/-!
# Depths of interfaces

- `Store.interfaceDepth`: 1 for an interface without base interfaces, otherwise one more than the
  greatest depth among its base interfaces.
-/

namespace NominalTypes.Store

/-- The depth of an interface, at most `levels` interfaces up. Depths once computed are kept, and an
interface out of reach counts as one without base interfaces. -/
def interfaceDepthWithin (s : Store) :
    Nat → TypeId → StateT (Std.TreeMap TypeId Nat) (Except RelationError) Nat
  | 0, interface => do
    return ((← get)[interface]?).getD 1
  | levels + 1, interface => do
    match (← get)[interface]? with
    | some depth => return depth
    | none =>
      let d ← s.descriptor interface
      let depths ← d.interfaces.mapM (s.interfaceDepthWithin levels)
      let depth := depths.foldl max 0 + 1
      modify (·.insert interface depth)
      return depth

/-- How many interfaces follow one another upwards from an interface, itself counted. -/
def interfaceDepth (s : Store) (interface : TypeId) : Except RelationError Nat := do
  let (depth, _) ← (s.interfaceDepthWithin maxDistance interface).run ∅
  return depth

end NominalTypes.Store
