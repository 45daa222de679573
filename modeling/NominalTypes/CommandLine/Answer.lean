import NominalTypes.CommandLine.Command
import NominalTypes.Json.Printer
import NominalTypes.Universe.Decode

/-!
# Answers

- `Answer`: the answer to a command, with all types shown as texts.
- `Answer.isPositive`: the answer is "yes".
- `Answer.render`: its text in a format.
-/

namespace NominalTypes

/-- What is shown of one type. -/
structure TypeReport where
  name : String
  qualified : String
  kind : Kind
  flags : List Flag
  definition : Option String
  arguments : List String
  base : Option String
  interfaces : List String
  /-- The types above, nearest first, with their distances. -/
  ancestry : List (String × Nat)

/-- The answer to a command. -/
inductive Answer where
  | assignable (target candidate : String) (holds : Bool)
  | generic (definition candidate : String) (holds : Bool)
  | common (types : List String) (result : Option String)
  | «match» (candidate pattern : String) (bindings : Option (List (String × List String)))
  | static (type : String) (holds : Bool)
  | «show» (report : TypeReport)

/-- How a kind is called in a sentence. -/
def Kind.noun : Kind → String
  | .parameter => "generic parameter"
  | kind => kind.text

namespace TypeReport

/-- Texts in a row. -/
def joined (texts : List String) : String := ", ".intercalate texts

/-- The lines of a report. Lines without content are left out, but for the last heading. -/
def lines (r : TypeReport) : List String :=
  let flags := if r.flags.isEmpty then "" else " [" ++ joined (r.flags.map Flag.label) ++ "]"
  let list := fun heading texts =>
    if texts.isEmpty then [] else ["  " ++ heading ++ joined texts]
  [r.qualified ++ " (" ++ r.kind.noun ++ ")" ++ flags] ++
    list "definition: " r.definition.toList ++ list "arguments:  " r.arguments ++
    list "base:       " r.base.toList ++ list "interfaces: " r.interfaces ++ ["  ancestry:"] ++
    r.ancestry.map fun (type, distance) => "    " ++ toString distance ++ " " ++ type

end TypeReport

namespace Json

/-- A text that may be missing. -/
def optional (text : Option String) : Json := text.elim .null .string

/-- A list of texts. -/
def strings (texts : List String) : Json := .array (texts.map .string)

end Json

namespace Answer

/-- The answer is "yes". A report always is. -/
def isPositive : Answer → Bool
  | .assignable _ _ holds | .generic _ _ holds | .static _ holds => holds
  | .common _ result => result.isSome
  | .match _ _ bindings => bindings.isSome
  | .show _ => true

/-- The word that denies a sentence. -/
def negation (holds : Bool) : String := if holds then "" else "not "

/-- The answer in sentences. -/
def renderText : Answer → String
  | .assignable target candidate holds =>
    candidate ++ " is " ++ negation holds ++ "assignable to " ++ target
  | .generic definition candidate holds =>
    candidate ++ " is " ++ negation holds ++ "assignable to generic definition " ++ definition
  | .common _ (some result) => "common ancestor: " ++ result
  | .common types none =>
    "no common ancestor besides the root for " ++ ", ".intercalate types
  | .match candidate pattern bindings =>
    let verdict := if bindings.isSome then " matches " else " does not match "
    "\n".intercalate ((candidate ++ verdict ++ pattern) ::
      (bindings.getD []).map fun (name, types) =>
        "  " ++ name ++ " = " ++ " | ".intercalate types)
  | .static type holds => type ++ " is " ++ negation holds ++ "a static class"
  | .show report => "\n".intercalate report.lines

/-- The fields of the answer behind the one that names the command. -/
def fields : Answer → List (String × Json)
  | .assignable target candidate holds =>
    [("target", .string target), ("candidate", .string candidate), ("assignable", .bool holds)]
  | .generic definition candidate holds =>
    [("definition", .string definition), ("candidate", .string candidate),
     ("assignable", .bool holds)]
  | .common types result =>
    [("types", Json.strings types), ("success", .bool result.isSome),
     ("result", Json.optional result)]
  | .match candidate pattern bindings =>
    let binding := fun ((name, types) : String × List String) =>
      Json.object [("variable", .string name), ("types", Json.strings types)]
    [("candidate", .string candidate), ("pattern", .string pattern),
     ("matched", .bool bindings.isSome), ("bindings", .array ((bindings.getD []).map binding))]
  | .static type holds => [("type", .string type), ("is_static", .bool holds)]
  | .show r =>
    let ancestor := fun ((type, distance) : String × Nat) =>
      Json.object [("type", .string type), ("distance", .count distance)]
    [("name", .string r.name), ("qualified", .string r.qualified), ("kind", .string r.kind.text),
     ("flags", Json.strings (r.flags.map Flag.label)), ("definition", Json.optional r.definition),
     ("arguments", Json.strings r.arguments), ("base", Json.optional r.base),
     ("interfaces", Json.strings r.interfaces), ("ancestry", .array (r.ancestry.map ancestor))]

/-- The name of the command that is answered. -/
def query : Answer → String
  | .assignable .. => "assignable"
  | .generic .. => "generic"
  | .common .. => "common"
  | .match .. => "match"
  | .static .. => "static"
  | .show _ => "show"

/-- The answer as a JSON object. -/
def json (a : Answer) : Json := .object (("query", .string a.query) :: a.fields)

/-- The answer in a format. -/
def render (a : Answer) : AnswerFormat → String
  | .text => a.renderText
  | .json => a.json.pretty

end Answer

end NominalTypes
