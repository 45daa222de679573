/-!
# JSON values

- `Json`: the values. An object keeps its fields in the order in which they are written, with
  repeated names if there are any.
- `Json.bool?`, `Json.text?`, `Json.list?`, `Json.fields?`: what a value holds.
- `Json.record?`: the fields of a record, which may be written with or without their names.
-/

namespace NominalTypes

/-- A JSON value. The only numbers are counts: reports write them, and nothing reads them. -/
inductive Json where
  | null
  | bool (value : Bool)
  | count (value : Nat)
  | string (value : String)
  | array (items : List Json)
  | object (fields : List (String × Json))
  deriving Inhabited

namespace Json

/-- The truth value that a value holds. -/
def bool? : Json → Option Bool
  | .bool value => some value
  | _ => none

/-- The text that a value holds. -/
def text? : Json → Option String
  | .string value => some value
  | _ => none

/-- The items of an array, each read in the same way. -/
def list? {α : Type} (item? : Json → Option α) : Json → Option (List α)
  | .array items => items.mapM item?
  | _ => none

/-- The fields of an object, each value read in the same way. -/
def fields? {α : Type} (value? : Json → Option α) : Json → Option (List (String × α))
  | .object fields => fields.mapM fun (name, value) => (value? value).map ((name, ·))
  | _ => none

/-- A value that may be left open with `null`. -/
def nullable? {α : Type} (value? : Json → Option α) : Json → Option (Option α)
  | .null => some none
  | value => (value? value).map some

/-- The fields of a record in the order of their names, as far as they are given. A record is an
object that has no other fields and none twice, or an array of the fields from the first on. -/
def record? (names : List String) : Json → Option (List (Option Json))
  | .object fields =>
    let given := fields.map Prod.fst
    if given.Nodup ∧ given.all names.contains then some (names.map (List.lookup · fields)) else none
  | .array items =>
    if items.length ≤ names.length then
      some (items.map some ++ List.replicate (names.length - items.length) none)
    else none
  | _ => none

/-- The value of a field that may be missing. -/
def field? {α : Type} (default : α) (value? : Json → Option α) : Option Json → Option α
  | none => some default
  | some value => value? value

end Json

end NominalTypes
