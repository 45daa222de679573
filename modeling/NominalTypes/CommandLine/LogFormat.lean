import NominalTypes.Text.Blank

/-!
# The layout of diagnostics

- `LogFormat.ofSetting`: the layout that a setting asks for. Blanks around it and the case of its
  letters do not count, and what names no layout asks for the plain one.
-/

namespace NominalTypes

/-- The layouts of diagnostics. -/
inductive LogFormat where
  | text
  | tree
  | json
  deriving DecidableEq, Repr

/-- The layout that a setting asks for. Both words have ASCII letters only, and no other character
becomes one of their letters in lower case. -/
def LogFormat.ofSetting (setting : String) : LogFormat :=
  let word := (Text.trim setting.toList).map Char.toLower
  if word = "tree".toList then .tree
  else if word = "json".toList then .json
  else .text

end NominalTypes
