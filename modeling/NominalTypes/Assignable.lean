import NominalTypes.Hierarchy.Ancestry
import NominalTypes.Pattern.Shape

/-!
# Assignability

| Target or definition | Candidate | direct | generic |
|----------------------|-----------|--------|---------|
| `IEnumerable<int>` | `List<int>` | yes | no |
| `IEnumerable<>` | `List<int>` | no | yes |
| `Nullable<>` | `int?` | no | yes |
| `int?` | `int` | yes | no |
| `object` | anything | yes | only `object` |

- `Store.accepts`: a value of the candidate may be stored where the target is expected.
- `Store.acceptsGenerically`: the candidate or one of its supertypes is built from the definition
  that a pattern stands for.
- `Store.isStaticClass`.
-/

namespace NominalTypes.Store

/-- The target is the nullable form of the candidate. -/
def isNullableOf (s : Store) (target : Descriptor) (candidate : TypeId) : Bool :=
  match target.origin with
  | .instantiation definition args _ =>
    s.roles.nullable == some definition && args == [candidate]
  | _ => false

/-- The candidate is the target, derives from it or implements it; the target is the universal root;
or the target is the nullable form of the candidate. Generic arguments are invariant. -/
def accepts (s : Store) (target candidate : TypeId) : Except RelationError Bool := do
  let d ← s.descriptor target
  let _ ← s.descriptor candidate
  if target = candidate ∨ s.isRoot target ∨ s.isNullableOf d candidate then return true
  else if d.isInterface then do
    let a ← s.ancestry candidate
    return a.contains target
  else do
    let chain ← s.baseChain candidate
    return chain.contains target

/-- The candidate or one of its supertypes is built from the definition that a pattern stands for. A
pattern that stands for no definition accepts itself only. -/
def acceptsGenerically (s : Store) (pattern candidate : TypeId) :
    Except RelationError Bool := do
  let _ ← s.descriptor candidate
  let shape ← s.shape pattern
  match shape with
  | .definition definition | .facade definition => do
    let found ← s.nearestBuiltFrom candidate definition
    return found.isSome
  | .nullableWrapper definition true =>
    return candidate == pattern || s.definitionOf? candidate == some definition
  | .nullableWrapper _ false | .instantiation _ | .plain | .variable _ =>
    return candidate == pattern

/-- The type is a class that was declared static. -/
def isStaticClass (s : Store) (type : TypeId) : Except RelationError Bool := do
  let d ← s.descriptor type
  return d.isClass && d.modifiers.isStatic

end NominalTypes.Store
