import NominalTypes.Descriptor

/-!
# Roles

Three types of a store may have a role of their own.

- `Role`, `Role.admits`: the roles, and which types are fit for them.
- `Roles`, `Roles.give`: which type has which role.
-/

namespace NominalTypes

/-- The roles that types may have. -/
inductive Role where
  /-- The universal root, which accepts every type and which classes derive from unless they declare
  another base. -/
  | root
  /-- The base of value types. -/
  | valueTypeRoot
  /-- The generic definition of nullable types. -/
  | nullable
  deriving DecidableEq, Repr

/-- A type is fit for a role: a class that is not generic for the two roots, a value type with one
parameter for the nullable wrapper. -/
def Role.admits : Role → Descriptor → Bool
  | .root, d | .valueTypeRoot, d => d.isClass && !d.isGeneric
  | .nullable, d => d.isValueType && d.isDefinition && d.arity == 1

/-- The type that has each role. -/
structure Roles where
  root : Option TypeId
  valueTypeRoot : Option TypeId
  nullable : Option TypeId
  deriving DecidableEq, Repr

namespace Roles

/-- No type has a role. -/
def none : Roles := ⟨.none, .none, .none⟩

/-- A type takes over a role. -/
def give (roles : Roles) (type : TypeId) : Role → Roles
  | .root => { roles with root := some type }
  | .valueTypeRoot => { roles with valueTypeRoot := some type }
  | .nullable => { roles with nullable := some type }

end Roles

end NominalTypes
