import NominalTypes.TypeExpr.Basic

/-!
# Writing type expressions

- `TypeExpr.render`: the text of an expression, with one space after each comma between arguments.
-/

namespace NominalTypes.TypeExpr

mutual

/-- The text of an expression. -/
def render : TypeExpr → String
  | .named name [] => name
  | .named name (arg :: rest) => name ++ "<" ++ arg.render ++ renderRest rest ++ ">"
  | .blanks name arity => name ++ "<" ++ String.ofList (List.replicate (arity - 1) ',') ++ ">"
  | .nullable inner => inner.render ++ "?"

/-- The text of the arguments after the first, each led by its comma. -/
def renderRest : List TypeExpr → String
  | [] => ""
  | arg :: rest => ", " ++ arg.render ++ renderRest rest

end

end NominalTypes.TypeExpr
