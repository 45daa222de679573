import NominalTypes.Roles
import NominalTypes.TypeExpr.Reader

/-!
# Declarations

A declaration is what a source of types hands to a store. Supertypes are written as type
expressions, which may name the generic parameters of the declaration.

- `Declaration`, `Declaration.qualifiedName`.
- `DeclarationFault`: why a store refuses a declaration, or a type for a role.
- `Declaration.fault?`: the faults that show in the declaration alone.
-/

namespace NominalTypes

/-- A type as it is declared. -/
structure Declaration where
  name : String
  /-- The namespace; an empty one counts as none. -/
  qualifier : Option String
  kind : Kind
  /-- The names of the generic parameters. Where there are any, a generic definition is declared. -/
  parameters : List String
  /-- The base class. -/
  base : Option String
  interfaces : List String
  isStatic : Bool
  isAbstract : Bool
  isSealed : Bool
  deriving DecidableEq, Repr

/-- Why a declaration is refused, or a type for a role. -/
inductive DeclarationFault where
  | notSimpleName
  | parameterKind
  | staticNotClass
  | baseNotAllowed
  | repeatedParameter
  | baseNotClass
  | baseSealed
  | notInterface (shown : String)
  /-- The type is not fit for the role. -/
  | unfit (role : Role)
  deriving DecidableEq, Repr

/-- The wording of a fault. -/
def DeclarationFault.reason : DeclarationFault → String
  | .notSimpleName => "the name must be a simple identifier"
  | .parameterKind => "generic parameters are created by their declaring type"
  | .staticNotClass => "only classes can be static"
  | .baseNotAllowed => "only classes declare a base type"
  | .repeatedParameter => "duplicate generic parameter name"
  | .baseNotClass => "the base type must be a class"
  | .baseSealed => "the base type is sealed"
  | .notInterface shown => "`" ++ shown ++ "` is not an interface"
  | .unfit .root => "the universal root must be a non-generic class"
  | .unfit .valueTypeRoot => "the value-type root must be a non-generic class"
  | .unfit .nullable => "the nullable wrapper must be a value type definition with one parameter"

namespace Declaration

/-- A type of some kind and name, with nothing else declared about it. -/
def plain (kind : Kind) (name : String) : Declaration :=
  ⟨name, none, kind, [], none, [], false, false, false⟩

/-- The namespace, if there is one and it is not empty. -/
def effectiveQualifier (d : Declaration) : Option String := d.qualifier.filter (· != "")

/-- The name with its namespace in front. -/
def qualifiedName (d : Declaration) : String :=
  match d.effectiveQualifier with
  | some qualifier => qualifier ++ "." ++ d.name
  | none => d.name

/-- Static classes are also abstract and sealed, and value types are sealed. -/
def modifiers (d : Declaration) : Modifiers where
  isStatic := d.isStatic
  isAbstract := d.isStatic || d.isAbstract
  isSealed := d.isStatic || d.isSealed || d.kind == .valueType

/-- The name reads as a type expression that is one word without a dot. -/
def hasSimpleName (d : Declaration) : Bool :=
  match TypeExpr.parse d.name with
  | .ok (.named word []) => !word.toList.contains '.'
  | _ => false

/-- The first fault that shows in the declaration alone. -/
def fault? (d : Declaration) : Option DeclarationFault :=
  if !d.hasSimpleName then some .notSimpleName
  else if d.kind = .parameter then some .parameterKind
  else if d.isStatic ∧ d.kind ≠ .classType then some .staticNotClass
  else if d.base.isSome ∧ d.kind ≠ .classType then some .baseNotAllowed
  else if ¬ d.parameters.Nodup then some .repeatedParameter
  else none

end Declaration

end NominalTypes
