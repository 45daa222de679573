import NominalTypes.Store.Basic

/-!
# How types are shown

| Type | Short label | Full label |
|------|-------------|------------|
| a type with a keyword | `int` | `System.Int32` |
| a generic definition | `List<T>` | `System.Collections.Generic.List<T>` |
| an instantiation | `List<int>` | `System.Collections.Generic.List<System.Int32>` |
| a nullable type | `int?` | `System.Nullable<System.Int32>` |

- `Store.label`: the label in either style, `Store.display` the short one.
- `Store.qualifiedName`: the namespace and the name alone.
-/

namespace NominalTypes

/-- The two styles of labels. -/
inductive LabelStyle where
  /-- Keywords and nullable marks where they apply, and no namespaces. -/
  | short
  /-- Namespaces everywhere, and neither keywords nor nullable marks. -/
  | full
  deriving DecidableEq, Repr

namespace Store

/-- What stands for a handle that belongs to no type. -/
def unknownLabel (type : TypeId) : String := "<unknown " ++ toString type ++ ">"

/-- The namespace and the name of a type. An instantiation has those of its definition. -/
def qualifiedName (s : Store) (type : TypeId) : String :=
  match s.get? type with
  | some d => d.qualifiedName
  | none => unknownLabel type

/-- The keyword that the style shows in the place of a type. -/
def shownKeyword? (s : Store) : LabelStyle → TypeId → Option String
  | .short, type => s.keyword? type
  | .full, _ => none

/-- The name that the style shows for a descriptor. -/
def headName : LabelStyle → Descriptor → String
  | .short, d => d.name
  | .full, d => d.qualifiedName

/-- The label of a type without its arguments, which is the whole label of a parameter. -/
def headLabel (s : Store) (style : LabelStyle) (type : TypeId) : String :=
  match s.get? type with
  | none => unknownLabel type
  | some d => (s.shownKeyword? style type).getD (headName style d)

/-- Arguments in brackets, and nothing where there are none. -/
def bracketed : List String → String
  | [] => ""
  | args => "<" ++ ", ".intercalate args ++ ">"

/-- The label of a type. The arguments of an instantiation are older than itself, so the walk down
its arguments ends. -/
def label (s : Store) (style : LabelStyle) (type : TypeId) : String :=
  match s.get? type, s.shownKeyword? style type with
  | none, _ => unknownLabel type
  | some _, some keyword => keyword
  | some d, none =>
    match d.origin with
    | .definition params => headName style d ++ bracketed (params.map (s.headLabel style))
    | .instantiation definition args _ =>
      let shown := args.map fun arg =>
        if arg < type then s.label style arg else s.headLabel style arg
      match style, shown with
      | .short, [inner] =>
        if s.roles.nullable = some definition then inner ++ "?"
        else headName .short d ++ bracketed [inner]
      | _, _ => headName style d ++ bracketed shown
    | _ => headName style d
termination_by type

/-- The short label of a type. -/
def display (s : Store) (type : TypeId) : String := s.label .short type

/-- The full label of a type. -/
def fullLabel (s : Store) (type : TypeId) : String := s.label .full type

end Store

end NominalTypes
