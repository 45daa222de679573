/-!
# Commands

- `Command`: the questions that can be asked on the command line.
- `Verb`: their names, with the number of operands they take.
- `Invocation`: a command with the universe files and the format of the answer.
-/

namespace NominalTypes

/-- A question. All types are given as texts. -/
inductive Command where
  | assignable (target candidate : String)
  | generic (definition candidate : String) (vars : List String)
  | common (types : List String)
  | «match» (candidate pattern : String) (vars : List String)
  | static (type : String)
  | «show» (type : String)
  deriving DecidableEq, Repr

/-- The formats of answers. -/
inductive AnswerFormat where
  | text
  | json
  deriving DecidableEq, Repr

/-- The format that a word names. Case counts. -/
def AnswerFormat.ofText? : String → Option AnswerFormat
  | "text" => some .text
  | "json" => some .json
  | _ => none

/-- What a command line asks for. -/
structure Invocation where
  /-- The universe files, which are loaded in this order on top of the core library. -/
  universes : List String
  format : AnswerFormat
  command : Command
  deriving DecidableEq, Repr

/-- The names of the commands. -/
inductive Verb where
  | assignable
  | generic
  | common
  | «match»
  | static
  | «show»
  deriving DecidableEq, Repr

namespace Verb

/-- The command that a word names. -/
def ofText? : String → Option Verb
  | "assignable" => some .assignable
  | "generic" => some .generic
  | "common" => some .common
  | "match" => some .match
  | "static" => some .static
  | "show" => some .show
  | _ => none

/-- The greatest number of operands, if there is one. -/
def maxOperands? : Verb → Option Nat
  | .assignable | .generic | .match => some 2
  | .static | .show => some 1
  | .common => none

/-- Names of free parameters may be given. -/
def takesVars : Verb → Bool
  | .generic | .match => true
  | _ => false

/-- The command with its operands; none if there are too few or too many. -/
def command? (verb : Verb) (operands vars : List String) : Option Command :=
  match verb, operands with
  | .assignable, [target, candidate] => some (.assignable target candidate)
  | .generic, [definition, candidate] => some (.generic definition candidate vars)
  | .common, type :: types => some (.common (type :: types))
  | .match, [candidate, pattern] => some (.match candidate pattern vars)
  | .static, [type] => some (.static type)
  | .show, [type] => some (.show type)
  | _, _ => none

end Verb

end NominalTypes
