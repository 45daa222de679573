/-!
# Descriptors of types

A store describes each of its types by a descriptor. The place of the descriptor is the handle of the
type.

- `TypeId`: the handle of a type.
- `Kind`, `Modifiers`, `Origin`: what sort of type it is, how it was declared, and where it comes
  from: declared, built from a generic definition, or a generic parameter.
- `Descriptor`: all that a store knows of a type by itself.
- `Flag`, `Descriptor.flags`: the properties of a type that reports list by name.
-/

namespace NominalTypes

/-- A type of a store: the place of its descriptor, counted in the order of creation. -/
abbrev TypeId := Nat

/-- The sorts of types. -/
inductive Kind where
  | classType
  | interface
  | valueType
  /-- A generic parameter, such as the `T` of `List<T>`. -/
  | parameter
  deriving DecidableEq, Repr

/-- How a type may be used as a class. -/
structure Modifiers where
  isStatic : Bool
  isAbstract : Bool
  isSealed : Bool
  deriving DecidableEq, Repr

/-- No modifier at all. -/
def Modifiers.none : Modifiers := ⟨false, false, false⟩

/-- Where a type comes from. -/
inductive Origin where
  /-- Declared without generic parameters. -/
  | declared
  /-- A generic definition with its parameters. It stands for itself applied to them. -/
  | definition (parameters : List TypeId)
  /-- A generic definition applied to other arguments; `isOpen` tells whether a generic parameter
  occurs in them at any depth. -/
  | instantiation (definition : TypeId) (args : List TypeId) (isOpen : Bool)
  /-- A parameter of a generic definition, at its position in the parameter list. -/
  | typeParameter (declaring : TypeId) (position : Nat)
  /-- A free parameter, declared by a method and not by a type. -/
  | methodParameter
  deriving DecidableEq, Repr

/-- What a store knows of one type. -/
structure Descriptor where
  /-- The simple name, without namespace and generic arguments. -/
  name : String
  /-- The namespace, if any. -/
  qualifier : Option String
  kind : Kind
  modifiers : Modifiers
  origin : Origin
  /-- The direct base type. -/
  base : Option TypeId
  /-- The interfaces implemented directly; inherited ones are found by walking. -/
  interfaces : List TypeId
  deriving DecidableEq, Repr

namespace Descriptor

/-- A descriptor whose supertypes are not known yet. -/
def bare (name : String) (qualifier : Option String) (kind : Kind) (modifiers : Modifiers)
    (origin : Origin) : Descriptor :=
  ⟨name, qualifier, kind, modifiers, origin, none, []⟩

/-- The descriptor of a generic parameter. -/
def parameter (name : String) (origin : Origin) : Descriptor :=
  bare name none .parameter .none origin

def isInterface (d : Descriptor) : Bool := d.kind == .interface

def isClass (d : Descriptor) : Bool := d.kind == .classType

def isValueType (d : Descriptor) : Bool := d.kind == .valueType

def isParameter (d : Descriptor) : Bool := d.kind == .parameter

/-- The type is a generic definition. -/
def isDefinition (d : Descriptor) : Bool :=
  match d.origin with
  | .definition _ => true
  | _ => false

/-- The type is a generic definition or built from one. -/
def isGeneric (d : Descriptor) : Bool :=
  match d.origin with
  | .definition _ | .instantiation .. => true
  | _ => false

/-- The parameters of a generic definition, or the arguments it is applied to. -/
def arguments (d : Descriptor) : List TypeId :=
  match d.origin with
  | .definition params => params
  | .instantiation _ args _ => args
  | _ => []

/-- Number of generic parameters or arguments. -/
def arity (d : Descriptor) : Nat := d.arguments.length

/-- Some generic argument, at any depth, is a generic parameter. -/
def hasOpenArguments (d : Descriptor) : Bool :=
  match d.origin with
  | .definition _ => true
  | .instantiation _ _ isOpen => isOpen
  | _ => false

/-- The type is a generic parameter or has one in its arguments. -/
def isOpen (d : Descriptor) : Bool := d.isParameter || d.hasOpenArguments

/-- The name with its namespace in front. -/
def qualifiedName (d : Descriptor) : String :=
  match d.qualifier with
  | some qualifier => qualifier ++ "." ++ d.name
  | none => d.name

/-- The definition whose parameter this is. -/
def declaring? (d : Descriptor) : Option TypeId :=
  match d.origin with
  | .typeParameter declaring _ => some declaring
  | _ => none

/-- The position of a parameter in the list of its definition. -/
def position? (d : Descriptor) : Option Nat :=
  match d.origin with
  | .typeParameter _ position => some position
  | _ => none

end Descriptor

/-- The properties of a type that reports list. -/
inductive Flag where
  | genericDefinition
  | containsParameters
  | methodParameter
  | staticClass
  | abstractClass
  | sealedType
  deriving DecidableEq, Repr

/-- The name of a property in a report. -/
def Flag.label : Flag → String
  | .genericDefinition => "generic_definition"
  | .containsParameters => "contains_parameters"
  | .methodParameter => "method_parameter"
  | .staticClass => "static"
  | .abstractClass => "abstract"
  | .sealedType => "sealed"

/-- The properties of a type, always in the same order. -/
def Descriptor.flags (d : Descriptor) : List Flag :=
  [(d.isDefinition, .genericDefinition), (d.hasOpenArguments, .containsParameters),
   (d.origin == .methodParameter, .methodParameter), (d.modifiers.isStatic, .staticClass),
   (d.modifiers.isAbstract, .abstractClass), (d.modifiers.isSealed, .sealedType)].filterMap
    fun (holds, flag) => if holds then some flag else none

end NominalTypes
