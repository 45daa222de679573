import NominalTypes.Hierarchy.Ancestry
import NominalTypes.Hierarchy.InterfaceDepth

/-!
# Lowest common ancestors

The lowest common ancestor of some types is the most specific type all of them can be widened to,
the universal root left aside.

1. If some input is not an interface and a class is common to all inputs, the most derived common
   class is taken.
2. Otherwise the deepest common interface is taken. Among equally deep ones the number of inputs
   decides to which it is a nearest one, then the distance from the first input, then the order in
   the ancestry of the first input.

- `Store.lowestCommonAncestor`.
- `Standing`: how a common interface compares with others.
-/

namespace NominalTypes

/-- What decides between common interfaces, in this order. -/
structure Standing where
  /-- The depth of the interface. -/
  depth : Nat
  /-- To how many inputs it is a nearest common interface. -/
  votes : Nat
  /-- The distance from the first input. -/
  distance : Nat
  deriving DecidableEq, Repr

/-- One standing is better than another: deeper, else with more votes, else nearer. -/
def Standing.beats (a b : Standing) : Bool :=
  decide (b.depth < a.depth) || (a.depth == b.depth &&
    (decide (b.votes < a.votes) || (a.votes == b.votes && decide (a.distance < b.distance))))

/-- The first of the best entries. -/
def Standing.best? : List (TypeId × Standing) → Option (TypeId × Standing)
  | [] => none
  | entry :: rest => some (rest.foldl (fun best next => if next.2.beats best.2 then next else best)
      entry)

/-- The least distance at which an ancestry holds one of the candidates. -/
def Ancestry.nearest? (a : Ancestry) (candidates : List TypeId) : Option Nat :=
  (candidates.filterMap a.distance?).min?

namespace Store

/-- The types common to all ancestries, the universal root left aside, with their distances in the
first one. -/
def commonMembers (s : Store) (first : Ancestry) (others : List Ancestry) : List (TypeId × Nat) :=
  first.members.filter fun (type, _) => !s.isRoot type && others.all (·.contains type)

/-- The deepest of the common interfaces, ties decided as `Standing.beats` says. -/
def deepestInterface (s : Store) (ancestries : List Ancestry) (common : List (TypeId × Nat)) :
    Except RelationError (Option TypeId) := do
  let interfaces := common.filter fun (type, _) => s.isInterface type
  let candidates := interfaces.map Prod.fst
  let ballots := ancestries.map fun a => (a, a.nearest? candidates)
  let ranked ← interfaces.mapM fun (type, distance) => do
    let votes := ballots.countP fun (a, nearest) =>
      nearest.isSome && a.distance? type == nearest
    return (type, ⟨← s.interfaceDepth type, votes, distance⟩)
  return (Standing.best? ranked).map Prod.fst

/-- The lowest common ancestor of types that are not all equal. -/
def lowestCommonOf (s : Store) (inputs : List TypeId) : Except RelationError (Option TypeId) := do
  let ancestries ← inputs.mapM s.ancestry
  match ancestries with
  | [] => return none
  | first :: others =>
    let common := s.commonMembers first others
    if common.isEmpty then return none
    let isProper := fun type => !s.isInterface type
    let commonClass :=
      if inputs.any isProper then
        first.chain.find? fun type => (common.lookup type).isSome && isProper type
      else none
    match commonClass with
    | some type => return some type
    | none => s.deepestInterface ancestries common

/-- The most specific type that all inputs can be widened to, the universal root left aside. Equal
inputs are their own common ancestor. -/
def lowestCommonAncestor (s : Store) :
    List TypeId → Except RelationError (Option TypeId)
  | [] => .error .emptyTypeSet
  | first :: rest => do
    (first :: rest).forM fun type => do
      let _ ← s.descriptor type
    if rest.all (· == first) then return some first
    else s.lowestCommonOf (first :: rest)

end Store

end NominalTypes
