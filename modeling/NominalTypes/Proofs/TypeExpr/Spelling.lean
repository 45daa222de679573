import Mathlib.Data.List.Chain
import Mathlib.Data.List.TakeWhile
import NominalTypes.TypeExpr.Token

/-!
# How tokens are spelled

A text spells its tokens with runs of blanks before, between and behind them, and a text that spells
tokens one way spells no others, unless two words stand side by side. No character is both blank and
part of a name, so a run of name characters ends where the word does.

- `Text.isAlphanumeric_eq_false`: blanks are neither letters nor digits.
- `Spells`: a text and its tokens.
- `Lexeme.spells_scan`: a text spells the tokens that are found in it.
- `Token.Separated`, `Lexeme.scan_of_spells`: tokens that are found in every text that spells them.
-/

namespace NominalTypes

/-! ## Kinds of characters -/

namespace Text

theorem exists_range_of_inRanges {ranges : List (Nat × Nat)} {c : Char}
    (h : inRanges ranges c = true) :
    ∃ range ∈ ranges, range.1 ≤ c.toNat ∧ c.toNat ≤ range.2 := by
  induction ranges with
  | nil => cases h
  | cons range ranges ih =>
    obtain ⟨low, high⟩ := range
    rw [inRanges] at h
    split at h
    · cases h
    next hlow =>
    split at h
    · next hhigh => exact ⟨(low, high), List.mem_cons_self, Nat.le_of_not_lt hlow, hhigh⟩
    · obtain ⟨range, hmem, hrange⟩ := ih h
      exact ⟨range, List.mem_cons_of_mem _ hmem, hrange⟩

/-- No range of blanks meets one of letters or digits. -/
theorem blankRanges_disjoint : ∀ blank ∈ blankRanges, ∀ range ∈ alphanumericRanges,
    blank.2 < range.1 ∨ range.2 < blank.1 := by
  decide +kernel

theorem isAlphanumeric_eq_false {c : Char} (h : isBlank c = true) : isAlphanumeric c = false := by
  refine Bool.eq_false_iff.mpr fun halpha => ?_
  obtain ⟨blank, hblank, hlow, hhigh⟩ := exists_range_of_inRanges h
  obtain ⟨range, hrange, hlow', hhigh'⟩ := exists_range_of_inRanges halpha
  have hdisjoint := blankRanges_disjoint blank hblank range hrange
  omega

end Text

theorem isNameChar_of_isBlank {c : Char} (h : Text.isBlank c = true) : isNameChar c = false := by
  rw [isNameChar, Text.isAlphanumeric_eq_false h, Bool.false_or, Bool.or_eq_false_iff,
    beq_eq_false_iff_ne, beq_eq_false_iff_ne]
  constructor
  · rintro rfl
    cases h
  · rintro rfl
    cases h

/-! ## Tokens and texts -/

namespace Token

/-- The characters of a token. -/
def chars : Token → List Char
  | .word name => name.toList
  | .mark c => [c]

/-- Tokens as they are found in texts: words are runs of name characters, and marks are characters
that are neither blank nor part of names. -/
def IsProper : Token → Prop
  | .word name => name.toList ≠ [] ∧ ∀ c ∈ name.toList, isNameChar c = true
  | .mark c => Text.isBlank c = false ∧ isNameChar c = false

instance : DecidablePred IsProper
  | .word name => decidable_of_iff (name.toList ≠ [] ∧ name.toList.all isNameChar = true)
      (and_congr_right' List.all_eq_true)
  | .mark c => inferInstanceAs (Decidable (Text.isBlank c = false ∧ isNameChar c = false))

/-- The name characters at the beginning of a text are a word. -/
theorem isProper_leadingWord {c : Char} (hc : isNameChar c = true) (rest : List Char) :
    (word (String.ofList (c :: rest.takeWhile isNameChar))).IsProper := by
  rw [IsProper, String.toList_ofList]
  refine ⟨List.cons_ne_nil _ _, List.forall_mem_cons.mpr ⟨hc, fun d hd => ?_⟩⟩
  exact List.mem_takeWhile_imp hd

/-- The token is a mark. -/
def isMark : Token → Bool
  | .word _ => false
  | .mark _ => true

end Token

/-- The text consists of the tokens, with runs of blanks before, between and behind them. -/
inductive Spells : List Char → List Token → Prop
  | nil {blanks : List Char} (hblanks : ∀ c ∈ blanks, Text.isBlank c = true) : Spells blanks []
  | cons {blanks rest : List Char} {token : Token} {tokens : List Token}
      (hblanks : ∀ c ∈ blanks, Text.isBlank c = true) (hrest : Spells rest tokens) :
      Spells (blanks ++ (token.chars ++ rest)) (token :: tokens)

namespace Spells

variable {text rest : List Char} {token : Token} {tokens others : List Token}

theorem empty : Spells [] [] := .nil fun _ h => (List.not_mem_nil h).elim

theorem token_cons (hrest : Spells rest tokens) (token : Token) :
    Spells (token.chars ++ rest) (token :: tokens) := by
  have h : Spells ([] ++ (token.chars ++ rest)) (token :: tokens) :=
    .cons (fun _ h => (List.not_mem_nil h).elim) hrest
  rwa [List.nil_append] at h

theorem blanks_append {blanks : List Char} (hblanks : ∀ c ∈ blanks, Text.isBlank c = true)
    (h : Spells text tokens) : Spells (blanks ++ text) tokens := by
  cases h with
  | nil hmore => exact .nil (List.forall_mem_append.mpr ⟨hblanks, hmore⟩)
  | cons hmore hrest =>
    rw [← List.append_assoc]
    exact .cons (List.forall_mem_append.mpr ⟨hblanks, hmore⟩) hrest

theorem blank_cons {c : Char} (hc : Text.isBlank c = true) (h : Spells text tokens) :
    Spells (c :: text) tokens := h.blanks_append (List.forall_mem_singleton.mpr hc)

theorem append (h : Spells text tokens) (h' : Spells rest others) :
    Spells (text ++ rest) (tokens ++ others) := by
  induction h with
  | nil hblanks => exact h'.blanks_append hblanks
  | cons hblanks _ ih =>
    rw [List.append_assoc, List.append_assoc]
    exact .cons hblanks ih

theorem singleton (token : Token) : Spells token.chars [token] := by
  have h := empty.token_cons token
  rwa [List.append_nil] at h

/-- What begins with a mark, or with nothing at all, does not lengthen a word in front of it. -/
theorem head_not_isNameChar (h : Spells text tokens)
    (hproper : ∀ token ∈ tokens, token.IsProper)
    (hmark : ∀ token, tokens.head? = some token → token.isMark = true) :
    ∀ c, text.head? = some c → isNameChar c = false := by
  intro c hc
  cases h with
  | nil hblanks => exact isNameChar_of_isBlank (hblanks c (List.mem_of_head? hc))
  | @cons blanks rest token tokens hblanks hrest =>
    cases blanks with
    | cons blank blanks =>
      cases hc
      exact isNameChar_of_isBlank (hblanks c List.mem_cons_self)
    | nil =>
      cases token with
      | word name => cases hmark _ rfl
      | mark d =>
        cases hc
        exact (hproper _ List.mem_cons_self).2

end Spells

/-! ## The tokens of a text -/

/-- Tokens that keep apart without blanks: of two side by side at least one is a mark. -/
structure Token.Separated (tokens : List Token) : Prop where
  proper : ∀ token ∈ tokens, token.IsProper
  apart : tokens.IsChain fun a b => a.isMark = true ∨ b.isMark = true

namespace Token.Separated

variable {name : String} {token : Token} {front rest tokens : List Token}

theorem nil : Separated [] where
  proper _ h := (List.not_mem_nil h).elim
  apart := .nil

theorem singleton (h : token.IsProper) : Separated [token] where
  proper := List.forall_mem_singleton.mpr h
  apart := .singleton token

/-- A mark separates what stands at its sides. -/
theorem append_mark (hfront : Separated front) {c : Char} (hc : (Token.mark c).IsProper)
    (hrest : Separated rest) : Separated (front ++ .mark c :: rest) where
  proper := List.forall_mem_append.mpr
    ⟨hfront.proper, List.forall_mem_cons.mpr ⟨hc, hrest.proper⟩⟩
  apart := by
    refine List.isChain_append.mpr ⟨hfront.apart, ?_, fun last _ next hnext => ?_⟩
    · exact List.isChain_cons.mpr ⟨fun _ _ => .inl rfl, hrest.apart⟩
    · cases hnext
      exact .inr rfl

theorem tail (h : Separated (token :: tokens)) : Separated tokens where
  proper next hnext := h.proper next (List.mem_cons_of_mem _ hnext)
  apart := h.apart.tail

theorem head_isMark (h : Separated (.word name :: tokens)) :
    ∀ token, tokens.head? = some token → token.isMark = true := by
  intro token htoken
  have hhead := (List.isChain_cons.mp h.apart).1 token htoken
  exact hhead.resolve_left Bool.false_ne_true

end Token.Separated

namespace Lexeme

variable {rest : List Char}

/-- Blanks are passed over. -/
theorem exists_scan_blanks {blanks : List Char} (h : ∀ c ∈ blanks, Text.isBlank c = true)
    (offset : Nat) (rest : List Char) :
    ∃ next, scan offset (blanks ++ rest) = scan next rest := by
  induction blanks generalizing offset with
  | nil => exact ⟨offset, rfl⟩
  | cons blank blanks ih =>
    obtain ⟨hblank, hblanks⟩ := List.forall_mem_cons.mp h
    obtain ⟨next, hnext⟩ := ih hblanks (offset + blank.utf8Size)
    exact ⟨next, by rw [List.cons_append, scan, if_pos hblank, hnext]⟩

theorem scan_mark {c : Char} (h : (Token.mark c).IsProper) (offset : Nat) (rest : List Char) :
    scan offset (c :: rest) = ⟨.mark c, offset⟩ :: scan (offset + c.utf8Size) rest := by
  obtain ⟨hblank, hname⟩ := h
  rw [scan, if_neg (Bool.not_eq_true _ ▸ hblank), if_neg (Bool.not_eq_true _ ▸ hname)]

/-- A word is found whole where no name character stands behind it. -/
theorem scan_word {name : String} (h : (Token.word name).IsProper)
    (hend : ∀ c, rest.head? = some c → isNameChar c = false) (offset : Nat) :
    scan offset (name.toList ++ rest) =
      ⟨.word name, offset⟩ :: scan (offset + byteCount name.toList) rest := by
  obtain ⟨hne, hall⟩ := h
  obtain ⟨c, cs, hchars⟩ := List.exists_cons_of_ne_nil hne
  rw [hchars] at hall
  obtain ⟨hc, hcs⟩ := List.forall_mem_cons.mp hall
  have hblank : ¬ Text.isBlank c = true := fun hblank => by
    rw [isNameChar_of_isBlank hblank] at hc
    cases hc
  obtain ⟨htake, hdrop⟩ :
      rest.takeWhile isNameChar = [] ∧ rest.dropWhile isNameChar = rest := by
    cases rest with
    | nil => exact ⟨rfl, rfl⟩
    | cons d rest =>
      have hd : ¬ isNameChar d = true := Bool.eq_false_iff.mp (hend d rfl)
      exact ⟨List.takeWhile_cons_of_neg hd, List.dropWhile_cons_of_neg hd⟩
  rw [hchars, List.cons_append, scan, if_neg hblank, if_pos hc]
  dsimp only
  rw [List.takeWhile_append_of_pos hcs, List.dropWhile_append_of_pos hcs, htake, hdrop,
    List.append_nil, ← hchars, String.ofList_toList]

/-- A text spells the tokens that are found in it. -/
theorem spells_scan (offset : Nat) (text : List Char) :
    Spells text ((scan offset text).map (·.token)) ∧
      ∀ token ∈ (scan offset text).map (·.token), token.IsProper := by
  fun_induction scan offset text with
  | case1 => exact ⟨.empty, fun _ h => (List.not_mem_nil h).elim⟩
  | case2 offset c rest hblank ih =>
    exact ⟨ih.1.blank_cons hblank, ih.2⟩
  | case3 offset c rest hblank hname word ih =>
    have hword : (Token.word (String.ofList word)).chars = word := String.toList_ofList
    have htext :
        c :: rest = (Token.word (String.ofList word)).chars ++ rest.dropWhile isNameChar := by
      rw [hword, List.cons_append, List.takeWhile_append_dropWhile]
    exact ⟨htext ▸ ih.1.token_cons _,
      List.forall_mem_cons.mpr ⟨Token.isProper_leadingWord hname rest, ih.2⟩⟩
  | case4 offset c rest hblank hname ih =>
    refine ⟨ih.1.token_cons (.mark c), List.forall_mem_cons.mpr ⟨?_, ih.2⟩⟩
    exact ⟨Bool.eq_false_iff.mpr hblank, Bool.eq_false_iff.mpr hname⟩

/-- Separated tokens are found in every text that spells them. -/
theorem scan_of_spells {text : List Char} {tokens : List Token} (h : Spells text tokens)
    (hseparated : Token.Separated tokens) (offset : Nat) :
    (scan offset text).map (·.token) = tokens := by
  induction h generalizing offset with
  | @nil blanks hblanks =>
    obtain ⟨next, hnext⟩ := exists_scan_blanks hblanks offset []
    rw [List.append_nil] at hnext
    rw [hnext, scan]
    rfl
  | @cons blanks rest token tokens hblanks hrest ih =>
    obtain ⟨next, hnext⟩ := exists_scan_blanks hblanks offset (token.chars ++ rest)
    rw [hnext]
    have htail := ih hseparated.tail
    have hproper := hseparated.proper token List.mem_cons_self
    cases token with
    | mark c =>
      rw [Token.chars, List.singleton_append, scan_mark hproper, List.map_cons, htail]
    | word name =>
      have hend := hrest.head_not_isNameChar hseparated.tail.proper hseparated.head_isMark
      rw [Token.chars, scan_word hproper hend, List.map_cons, htail]

end Lexeme

end NominalTypes
