import NominalTypes.Store.Declare

/-!
# Universes

A universe is a collection of declarations and of keywords for types.

- `Universe`.
- `Universe.apply`: declares the types in their order and then registers the keywords in the order
  of their names. It ends at the first failure; what is done by then stays.
- `UniverseError`: which entry failed, and why.
-/

namespace NominalTypes

/-- Declarations, and keywords with the types they stand for. -/
structure Universe where
  types : List Declaration
  /-- The type expression of each keyword. -/
  aliases : Std.TreeMap String String

/-- The entry of a universe that failed, and why. -/
inductive UniverseError where
  | declaring (name : String) (cause : StoreError)
  | resolvingAlias (keyword target : String) (cause : StoreError)
  | registeringAlias (keyword : String) (cause : StoreError)
  deriving DecidableEq, Repr

namespace UniverseError

/-- Why the entry failed. -/
def cause : UniverseError → StoreError
  | .declaring _ cause | .resolvingAlias _ _ cause | .registeringAlias _ cause => cause

/-- The wording: the entry, then the cause. -/
def message : UniverseError → String
  | .declaring name cause => "failed to declare `" ++ name ++ "`: " ++ cause.message
  | .resolvingAlias keyword target cause =>
    "failed to resolve alias `" ++ keyword ++ "` -> `" ++ target ++ "`: " ++ cause.message
  | .registeringAlias keyword cause =>
    "failed to register alias `" ++ keyword ++ "`: " ++ cause.message

end UniverseError

namespace Universe

/-- The universe with nothing in it. -/
def empty : Universe := ⟨[], ∅⟩

/-- Declares one type of a universe. -/
def declare (order : ScanOrder) (d : Declaration) : ExceptT UniverseError (StateM Store) Unit := do
  let _ ← (Store.declare d order).adapt (.declaring d.qualifiedName)

/-- Registers one keyword of a universe. -/
def register (keyword target : String) : ExceptT UniverseError (StateM Store) Unit := do
  let type ← (Store.readType target).adapt (.resolvingAlias keyword target)
  (Store.addAlias keyword type).adapt (.registeringAlias keyword)

/-- Declares the types in their order and registers the keywords in the order of their names. -/
def apply (u : Universe) (order : ScanOrder := .oldestFirst) :
    ExceptT UniverseError (StateM Store) Unit := do
  u.types.forM (declare order)
  u.aliases.toList.forM fun (keyword, target) => register keyword target

end Universe

end NominalTypes
