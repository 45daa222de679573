import NominalTypes.Text.CodeRanges

/-!
# Blank characters

The characters with the Unicode property `White_Space`: they separate the words of a type
expression and are trimmed from settings.

- `Text.isBlank`: the character has the property.
- `Text.trim`: a text without the blanks at its two ends.
- `Text.isBlank_of_isWhitespace`: every character that core calls white space is blank.
-/

namespace NominalTypes.Text

/-- The 25 code points with the property `White_Space`. -/
def blankRanges : List (Nat × Nat) :=
  [(0x9, 0xD), (0x20, 0x20), (0x85, 0x85), (0xA0, 0xA0), (0x1680, 0x1680), (0x2000, 0x200A),
   (0x2028, 0x2029), (0x202F, 0x202F), (0x205F, 0x205F), (0x3000, 0x3000)]

/-- The character has the property `White_Space`. -/
def isBlank (c : Char) : Bool := inRanges blankRanges c

/-- The blanks of core are the four most common ones of these. -/
theorem isBlank_of_isWhitespace {c : Char} (h : c.isWhitespace = true) : isBlank c = true := by
  simp only [Char.isWhitespace, Bool.or_eq_true, decide_eq_true_eq] at h
  rcases h with ((rfl | rfl) | rfl) | rfl <;> decide

/-- The text without the blanks at its two ends. -/
def trim (text : List Char) : List Char :=
  ((text.dropWhile isBlank).reverse.dropWhile isBlank).reverse

end NominalTypes.Text
