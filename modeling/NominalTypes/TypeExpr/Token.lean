import NominalTypes.Text.Alphanumeric
import NominalTypes.Text.Blank

/-!
# Tokens of type expressions

A text is cut into words and marks. A word is a run of name characters that cannot be made longer,
a mark is any other single character, and blanks only separate. Each token is kept with the number
of bytes in front of it, so that a fault can be reported where it stands.

- `Token`, `Lexeme`: a token, and a token with its place.
- `Lexeme.scan`: the tokens of a text.
- `Token.isSimpleName`, `Token.nameFault?`: which words are names.
-/

namespace NominalTypes

/-- The characters of names. -/
def isNameChar (c : Char) : Bool := Text.isAlphanumeric c || c == '_' || c == '.'

/-- A token of a type expression. -/
inductive Token where
  /-- A run of name characters. -/
  | word (name : String)
  /-- Any other character that is not blank. -/
  | mark (c : Char)
  deriving DecidableEq, Repr

/-- A token and the number of bytes that stand in front of it. -/
structure Lexeme where
  token : Token
  offset : Nat
  deriving DecidableEq, Repr

/-- Number of bytes of a text in UTF-8. -/
def byteCount (text : List Char) : Nat := text.foldr (fun c count => c.utf8Size + count) 0

/-- The tokens of a text that begins after `offset` bytes. -/
def Lexeme.scan (offset : Nat) : List Char → List Lexeme
  | [] => []
  | c :: rest =>
    if Text.isBlank c then scan (offset + c.utf8Size) rest
    else if isNameChar c then
      let word := c :: rest.takeWhile isNameChar
      ⟨.word (String.ofList word), offset⟩ ::
        scan (offset + byteCount word) (rest.dropWhile isNameChar)
    else ⟨.mark c, offset⟩ :: scan (offset + c.utf8Size) rest
termination_by text => text.length
decreasing_by
  · simp
  · have := (List.dropWhile_sublist (p := isNameChar) (l := rest)).length_le
    simp only [List.length_cons]
    omega
  · simp

/-- What is wrong with a word in the place of a type name. -/
inductive NameFault where
  /-- A dot begins or ends the word, or follows another dot. -/
  | misplacedDot
  /-- The word begins with one of the ten ASCII digits. -/
  | leadingDigit
  deriving DecidableEq, Repr

/-- Two dots follow one another. -/
def hasDoubledDot : List Char → Bool
  | '.' :: '.' :: _ => true
  | _ :: rest => hasDoubledDot rest
  | [] => false

/-- The first thing that is wrong with a word as a type name. -/
def nameFault? (word : String) : Option NameFault :=
  let chars := word.toList
  if chars.head? = some '.' ∨ chars.getLast? = some '.' ∨ hasDoubledDot chars then
    some .misplacedDot
  else if chars.head?.any Char.isDigit then some .leadingDigit
  else none

end NominalTypes
