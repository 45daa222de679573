import NominalTypes.Json.Reader
import NominalTypes.Universe.Basic

/-!
# Universes in JSON

A universe is an object with the fields `types` and `aliases`, a declaration an object with at least
a `name`. Unknown fields, repeated fields and values of another sort are refused.

- `Declaration.ofJson?`, `Universe.ofJson?`: what a value denotes.
- `Universe.parse?`: the universe that a text denotes.
-/

namespace NominalTypes

/-- The kind that a word names. -/
def Kind.ofText? : String → Option Kind
  | "class" => some .classType
  | "interface" => some .interface
  | "struct" => some .valueType
  | "parameter" => some .parameter
  | _ => none

/-- The word that names a kind. -/
def Kind.text : Kind → String
  | .classType => "class"
  | .interface => "interface"
  | .valueType => "struct"
  | .parameter => "parameter"

/-- Reading the word of a kind gives the kind back. -/
theorem Kind.ofText?_text (kind : Kind) : Kind.ofText? kind.text = some kind := by
  cases kind <;> rfl

/-- The kind that a value denotes: its word, or an object whose only field is that word and holds
nothing. -/
def Kind.ofJson? : Json → Option Kind
  | .string word | .object [(word, .null)] => Kind.ofText? word
  | _ => none

/-- The names of the fields of a declaration, in their order. -/
def Declaration.fieldNames : List String :=
  ["name", "namespace", "kind", "params", "base", "interfaces", "static", "abstract", "sealed"]

/-- The declaration that a value denotes. All fields but the name may be left out. -/
def Declaration.ofJson? (value : Json) : Option Declaration := do
  match ← value.record? Declaration.fieldNames with
  | [name, qualifier, kind, parameters, base, interfaces, isStatic, isAbstract, isSealed] =>
    return {
      name := ← (← name).text?
      qualifier := ← Json.field? none (Json.nullable? Json.text?) qualifier
      kind := ← Json.field? .classType Kind.ofJson? kind
      parameters := ← Json.field? [] (Json.list? Json.text?) parameters
      base := ← Json.field? none (Json.nullable? Json.text?) base
      interfaces := ← Json.field? [] (Json.list? Json.text?) interfaces
      isStatic := ← Json.field? false Json.bool? isStatic
      isAbstract := ← Json.field? false Json.bool? isAbstract
      isSealed := ← Json.field? false Json.bool? isSealed }
  | _ => none

namespace Universe

/-- The names of the fields of a universe, in their order. -/
def fieldNames : List String := ["types", "aliases"]

/-- Keywords with their types. Of a keyword that is given several times the last entry counts. -/
def aliasTable (entries : List (String × String)) : Std.TreeMap String String :=
  entries.foldl (fun table (keyword, target) => table.insert keyword target) ∅

/-- The universe that a value denotes. Both fields may be left out. -/
def ofJson? (value : Json) : Option Universe := do
  match ← value.record? fieldNames with
  | [types, aliases] =>
    let types ← Json.field? [] (Json.list? Declaration.ofJson?) types
    let aliases ← Json.field? [] (Json.fields? Json.text?) aliases
    return ⟨types, aliasTable aliases⟩
  | _ => none

/-- The universe that a text denotes. -/
def parse? (text : String) : Option Universe := do
  ofJson? (← Json.parse? text)

end Universe

end NominalTypes
