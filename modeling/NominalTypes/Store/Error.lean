import NominalTypes.Declaration

/-!
# Errors

Negative answers (not assignable, no common ancestor, no match) are ordinary values. An error
reports a handle that a store does not know, or metadata that is malformed.

- `RelationError`: what stops a question about types.
- `StoreError`: what stops an operation that builds or names types.
- `StoreError.message`: the wording.
-/

namespace NominalTypes

/-- What stops a question about types. -/
inductive RelationError where
  /-- The handle belongs to no type of the store. -/
  | unknownType (type : TypeId)
  /-- A common ancestor was asked for no types at all. -/
  | emptyTypeSet
  deriving DecidableEq, Repr

/-- The wording of a relation error. -/
def RelationError.message : RelationError → String
  | .unknownType type => "unknown type handle TypeId(" ++ toString type ++ ")"
  | .emptyTypeSet => "cannot compute a common ancestor of an empty type set"

/-- What stops an operation that builds or names types. -/
inductive StoreError where
  /-- The name, or the alias, is taken. -/
  | duplicateType (name : String)
  | unknownTypeName (name : String)
  /-- Several declared types have the simple name; their qualified names are listed. -/
  | ambiguousTypeName (name : String) (candidates : List String)
  | arityMismatch (name : String) (expected found : Nat)
  | notGenericDefinition (name : String)
  | invalidDeclaration (name : String) (fault : DeclarationFault)
  | parse (input : String) (error : ParseError)
  /-- A nullable type was asked for, and no definition has the role of the wrapper. -/
  | missingNullableDefinition
  /-- Supertypes lead to new instantiations without end, or nearly so. -/
  | instantiationTooDeep (name : String)
  | relation (error : RelationError)
  deriving DecidableEq, Repr

/-- The wording of a store error. -/
def StoreError.message : StoreError → String
  | .duplicateType name => "type `" ++ name ++ "` is already declared"
  | .unknownTypeName name => "unknown type `" ++ name ++ "`"
  | .ambiguousTypeName name candidates =>
    "type name `" ++ name ++ "` is ambiguous; qualify it with one of: " ++
      ", ".intercalate candidates
  | .arityMismatch name expected found =>
    "`" ++ name ++ "` expects " ++ toString expected ++ " generic argument(s), found " ++
      toString found
  | .notGenericDefinition name => "`" ++ name ++ "` is not a generic type definition"
  | .invalidDeclaration name fault =>
    "invalid declaration of `" ++ name ++ "`: " ++ fault.reason
  | .parse input error =>
    "parse error in `" ++ input ++ "` at offset " ++ toString error.offset ++ ": " ++
      error.fault.message
  | .missingNullableDefinition => "no nullable wrapper definition is registered"
  | .instantiationTooDeep name =>
    "instantiation of `" ++ name ++ "` is excessively deep and possibly infinite"
  | .relation error => error.message

end NominalTypes
