import NominalTypes.TypeExpr.Basic
import NominalTypes.TypeExpr.Token

/-!
# Reading type expressions

The reader takes one token at a time and keeps a stack of the argument lists that are still open.
A token that cannot stand where it does is reported with the place where it begins; if the text ends
too early, the place is its end.

- `TypeExpr.parse`: the expression that a text denotes.
- `Reader`, `Reader.step`, `Reader.finish`: the states of the reader, what a token does to them, and
  what the end of the text does.
- `maxNesting`: how deep argument lists may be nested.
-/

namespace NominalTypes

/-- Why a text is not a type expression. -/
inductive ParseFault where
  | nameExpected
  | badName (fault : NameFault)
  | tooDeep
  | blanksUnclosed
  | argumentsUnclosed
  | trailingInput
  deriving DecidableEq, Repr

/-- The wording of a fault. -/
def ParseFault.message : ParseFault → String
  | .nameExpected => "expected a type name"
  | .badName .misplacedDot => "malformed qualified name"
  | .badName .leadingDigit => "type names cannot start with a digit"
  | .tooDeep => "type nesting too deep"
  | .blanksUnclosed => "expected `,` or `>` in open generic type"
  | .argumentsUnclosed => "expected `,` or `>` after generic argument"
  | .trailingInput => "unexpected trailing input"

/-- A fault and the number of bytes in front of it. -/
structure ParseError where
  offset : Nat
  fault : ParseFault
  deriving DecidableEq, Repr

/-- Generic argument lists may be nested this deep, the whole expression counted as one level. -/
def maxNesting : Nat := 1000

/-- An argument list that is still open: the name in front of it and the arguments read so far, the
last one first. -/
structure OpenList where
  name : String
  args : List TypeExpr

/-- Where the reader stands. Each state carries the argument lists that are open, the innermost one
first. -/
inductive Reader where
  /-- A type has to begin here. -/
  | atType (enclosing : List OpenList)
  /-- Behind a name. -/
  | atName (enclosing : List OpenList) (name : String)
  /-- Behind a name and an opening bracket. -/
  | atBracket (enclosing : List OpenList) (name : String)
  /-- Among the blank places of a generic type, `arity` of them so far. -/
  | atBlank (enclosing : List OpenList) (name : String) (arity : Nat)
  /-- Behind a complete type. -/
  | behind (enclosing : List OpenList) (type : TypeExpr)

namespace Reader

/-- Nothing has been read. -/
def start : Reader := .atType []

/-- A word as a type name. -/
def readName (enclosing : List OpenList) (word : String) : Except ParseFault Reader :=
  match nameFault? word with
  | some fault => .error (.badName fault)
  | none => .ok (.atName enclosing word)

/-- The token at the place where a type has to begin. -/
def beginType (enclosing : List OpenList) : Token → Except ParseFault Reader
  | .word word => readName enclosing word
  | .mark _ => .error .nameExpected

/-- The token behind a complete type. -/
def endType (type : TypeExpr) : List OpenList → Token → Except ParseFault Reader
  | enclosing, .mark '?' => .ok (.behind enclosing (.nullable type))
  | [], _ => .error .trailingInput
  | list :: outer, .mark ',' => .ok (.atType (⟨list.name, type :: list.args⟩ :: outer))
  | list :: outer, .mark '>' => .ok (.behind outer (.named list.name (type :: list.args).reverse))
  | _ :: _, _ => .error .argumentsUnclosed

/-- What a token does. -/
def step : Reader → Token → Except ParseFault Reader
  | .atType enclosing, token => beginType enclosing token
  | .atName enclosing name, .mark '<' => .ok (.atBracket enclosing name)
  | .atName enclosing name, token => endType (.named name []) enclosing token
  | .atBracket enclosing name, .mark ',' => .ok (.atBlank enclosing name 2)
  | .atBracket enclosing name, .mark '>' => .ok (.behind enclosing (.blanks name 1))
  | .atBracket enclosing name, token =>
    if enclosing.length + 1 < maxNesting then beginType (⟨name, []⟩ :: enclosing) token
    else .error .tooDeep
  | .atBlank enclosing name arity, .mark ',' => .ok (.atBlank enclosing name (arity + 1))
  | .atBlank enclosing name arity, .mark '>' => .ok (.behind enclosing (.blanks name arity))
  | .atBlank .., _ => .error .blanksUnclosed
  | .behind enclosing type, token => endType type enclosing token

/-- What the end of the text does. -/
def finish : Reader → Except ParseFault TypeExpr
  | .atType _ => .error .nameExpected
  | .atName [] name => .ok (.named name [])
  | .atBracket enclosing _ =>
    .error (if enclosing.length + 1 < maxNesting then .nameExpected else .tooDeep)
  | .atBlank .. => .error .blanksUnclosed
  | .behind [] type => .ok type
  | .atName .. | .behind .. => .error .argumentsUnclosed

/-- The reader after the tokens of a text, or the first fault at its place. -/
def run (reader : Reader) (lexemes : List Lexeme) : Except ParseError Reader :=
  lexemes.foldlM (fun reader lexeme => (reader.step lexeme.token).mapError (⟨lexeme.offset, ·⟩))
    reader

end Reader

/-- The expression that a text denotes. -/
def TypeExpr.parse (text : String) : Except ParseError TypeExpr := do
  let reader ← Reader.start.run (Lexeme.scan 0 text.toList)
  reader.finish.mapError (⟨text.utf8ByteSize, ·⟩)

end NominalTypes
