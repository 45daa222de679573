/-!
# Type expressions

A type expression names a type in the usual notation for generic types.

| Text | Expression |
|------|------------|
| `int` | a name |
| `Dictionary<int, string>` | a name applied to arguments |
| `IDictionary<,>` | the open generic type of two parameters |
| `int?` | the nullable wrapper around `int` |

- `TypeExpr`: the expressions.
- `TypeExpr.nesting`: how many generic argument lists are nested in one another, counting the
  expression itself.
-/

namespace NominalTypes

/-- A type as it is written. -/
inductive TypeExpr where
  /-- A name with its generic arguments, of which there may be none. -/
  | named (name : String) (args : List TypeExpr)
  /-- A generic type with its argument places left blank. -/
  | blanks (name : String) (arity : Nat)
  /-- The nullable form of a type. -/
  | nullable (inner : TypeExpr)
  deriving Inhabited, Repr

namespace TypeExpr

mutual

/-- Levels of generic arguments, the expression itself counted. Nullable marks add none. -/
def nesting : TypeExpr → Nat
  | .named _ args => nestingAll args + 1
  | .blanks _ _ => 1
  | .nullable inner => inner.nesting

/-- The deepest nesting in a list of arguments. -/
def nestingAll : List TypeExpr → Nat
  | [] => 0
  | arg :: rest => max arg.nesting (nestingAll rest)

end

end TypeExpr

end NominalTypes
