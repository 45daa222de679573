import NominalTypes.Assignable
import NominalTypes.Pattern.Bindings

/-!
# Matching types against patterns

| Pattern | Rule |
|---------|------|
| variable | is bound to the candidate |
| plain | accepts the candidate or does not |
| nullable wrapper | a nullable candidate is matched by its argument, other value types themselves |
| other generic | the nearest type above the candidate with its definition is matched by arguments |

Generic arguments are invariant: `IList<int>` does not match `List<T>`. Bindings are appended as
they are found and are never taken back.

- `Store.matchInto`: matches a candidate and appends to bindings.
- `Store.matchBindings`: the bindings of a successful match.
-/

namespace NominalTypes.Store

/-- The result of matching into bindings: whether it succeeded, and all bindings after it. -/
abbrev MatchResult := Except RelationError (Bool × Bindings String TypeId)

/-- Matches the candidate arguments against the pattern arguments pairwise, up to the first failure.
Lists of different lengths do not match. -/
def matchPairs (match1 : TypeId → TypeId → Bindings String TypeId → MatchResult) :
    List TypeId → List TypeId → Bindings String TypeId → MatchResult
  | [], [], b => .ok (true, b)
  | arg :: args, pattern :: patterns, b => do
    let (matched, b) ← match1 arg pattern b
    if matched then matchPairs match1 args patterns b else return (false, b)
  | _, _, b => .ok (false, b)

/-- Matches against a parameter of a generic definition, which is a variable. -/
def matchParameter (s : Store) (candidate param : TypeId) (b : Bindings String TypeId) :
    MatchResult := do
  let _ ← s.descriptor candidate
  match ← s.shape param with
  | .variable name => return (true, b.bind name candidate)
  | _ => return (false, b)

/-- Matches a candidate against a pattern and appends what its variables are bound to. The arguments
of a pattern are older than the pattern or are parameters of a definition, so the walk down the
pattern ends. -/
def matchInto (s : Store) (candidate pattern : TypeId) (b : Bindings String TypeId) :
    MatchResult := do
  let d ← s.descriptor candidate
  let shape ← s.shape pattern
  let p ← s.descriptor pattern
  let matchArgument := fun arg inner b =>
    if inner < pattern then s.matchInto arg inner b else s.matchParameter arg inner b
  match shape with
  | .variable name => return (true, b.bind name candidate)
  | .plain => do
    let accepted ← s.accepts pattern candidate
    return (accepted, b)
  | .nullableWrapper definition _ =>
    if s.definitionOf? candidate = some definition then
      matchPairs matchArgument d.arguments p.arguments b
    else if d.isValueType then
      match p.arguments with
      | [inner] => matchArgument candidate inner b
      | _ => return (false, b)
    else return (false, b)
  | .definition definition | .facade definition | .instantiation definition =>
    match ← s.nearestBuiltFrom candidate definition with
    | some found => do
      let f ← s.descriptor found
      matchPairs matchArgument f.arguments p.arguments b
    | none => return (false, b)
termination_by pattern

/-- The bindings of a successful match. -/
def matchBindings (s : Store) (candidate pattern : TypeId) :
    Except RelationError (Option (Bindings String TypeId)) := do
  let (matched, b) ← s.matchInto candidate pattern .empty
  return if matched then some b else none

end NominalTypes.Store
