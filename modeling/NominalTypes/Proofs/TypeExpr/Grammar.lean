import NominalTypes.Proofs.TypeExpr.Spelling
import NominalTypes.TypeExpr.Printer
import NominalTypes.TypeExpr.Reader

/-!
# The reader accepts exactly the grammar

An expression is a tree, and its tokens are read off it. The reader goes the other way without
looking ahead: at any time the tokens behind it are those of the argument lists that are open and of
the part that has been completed. So what it returns has exactly the tokens of the text. Conversely
it comes through the tokens of any expression that keeps to the rules for names and nesting.

- `TypeExpr.tokens`, `TypeExpr.IsGrammatical`: the grammar.
- `isTypeName_iff`: the rules for names, as they are checked.
- `Reader.tokens`, `Reader.IsSound`: the invariant, with `Reader.step_sound` for one token and
  `Reader.HasRead.steps_sound` for many.
- `TypeExpr.IsGrammatical.reads`: the reader comes through the tokens of an expression.
- `TypeExpr.spells_render`: the text that is written for an expression spells it.
- `TypeExpr.parse_eq_ok_iff_spells`: the main result.
-/

namespace NominalTypes

/-! ## Names -/

/-- A type name is a run of name characters. No dot begins or ends it or follows another dot, and no
digit begins it. -/
structure IsTypeName (name : String) : Prop where
  ne_nil : name.toList ≠ []
  chars : ∀ c ∈ name.toList, isNameChar c = true
  head_ne : name.toList.head? ≠ some '.'
  last_ne : name.toList.getLast? ≠ some '.'
  not_doubled : ¬ ['.', '.'] <:+: name.toList
  not_digit : ∀ c, name.toList.head? = some c → c.isDigit = false

theorem hasDoubledDot_iff {chars : List Char} :
    hasDoubledDot chars = true ↔ ['.', '.'] <:+: chars := by
  fun_induction hasDoubledDot chars with
  | case1 rest => exact iff_of_true rfl ⟨[], rest, rfl⟩
  | case2 c rest hne ih =>
    rw [ih, List.infix_cons_iff]
    refine ⟨.inr, fun h => h.resolve_left fun hprefix => ?_⟩
    obtain ⟨more, heq⟩ := hprefix
    cases heq
    exact hne more rfl rfl
  | case3 => exact iff_of_false Bool.false_ne_true (by simp)

theorem nameFault?_eq_none_iff {name : String} :
    nameFault? name = none ↔ name.toList.head? ≠ some '.' ∧ name.toList.getLast? ≠ some '.' ∧
      ¬ ['.', '.'] <:+: name.toList ∧ ∀ c, name.toList.head? = some c → c.isDigit = false := by
  have hdigit : (∀ c, name.toList.head? = some c → c.isDigit = false) ↔
      ¬ name.toList.head?.any Char.isDigit = true := by
    cases name.toList.head? <;> simp
  rw [← hasDoubledDot_iff, hdigit, nameFault?]
  split_ifs with hdot hleading
  · exact iff_of_false (fun h => nomatch h) (by tauto)
  · exact iff_of_false (fun h => nomatch h) fun h => h.2.2.2 hleading
  · exact iff_of_true rfl (by tauto)

/-- The words that are accepted as names are the type names. -/
theorem isTypeName_iff {name : String} :
    IsTypeName name ↔ (Token.word name).IsProper ∧ nameFault? name = none := by
  rw [nameFault?_eq_none_iff]
  constructor
  · intro h
    exact ⟨⟨h.ne_nil, h.chars⟩, h.head_ne, h.last_ne, h.not_doubled, h.not_digit⟩
  · rintro ⟨⟨hne, hchars⟩, hhead, hlast, hdoubled, hdigit⟩
    exact ⟨hne, hchars, hhead, hlast, hdoubled, hdigit⟩

instance : DecidablePred IsTypeName := fun _ => decidable_of_iff _ isTypeName_iff.symm

/-- Two dots that follow one another are two neighbours. -/
theorem not_doubled_iff {chars : List Char} :
    ¬ ['.', '.'] <:+: chars ↔ chars.IsChain fun a b => a = '.' → b ≠ '.' := by
  rw [List.isChain_iff_forall_rel_of_append_cons_cons]
  constructor
  · rintro hnot a b front back rfl rfl rfl
    exact hnot ⟨front, back, by simp⟩
  · rintro hchain ⟨front, back, rfl⟩
    exact hchain (List.append_assoc front _ back) rfl rfl

/-- Type names may be joined by a dot. -/
theorem IsTypeName.join {first last : String} (hfirst : IsTypeName first)
    (hlast : IsTypeName last) : IsTypeName (first ++ "." ++ last) := by
  have hchars : (first ++ "." ++ last).toList = first.toList ++ '.' :: last.toList := by simp
  have hhead : (first.toList ++ '.' :: last.toList).head? = first.toList.head? :=
    List.head?_append_of_ne_nil _ hfirst.ne_nil
  constructor <;> rw [hchars]
  · simp
  · refine List.forall_mem_append.mpr ⟨hfirst.chars, List.forall_mem_cons.mpr ⟨?_, hlast.chars⟩⟩
    decide +kernel
  · rw [hhead]
    exact hfirst.head_ne
  · rw [List.getLast?_append_of_ne_nil _ (List.cons_ne_nil _ _),
      List.getLast?_cons_of_ne_nil hlast.ne_nil]
    exact hlast.last_ne
  · -- neither name has a dot beside the new one
    rw [not_doubled_iff]
    refine List.isChain_append.mpr ⟨not_doubled_iff.mp hfirst.not_doubled, ?_, ?_⟩
    · refine List.isChain_cons.mpr ⟨?_, not_doubled_iff.mp hlast.not_doubled⟩
      rintro c hc - rfl
      exact hlast.head_ne hc
    · rintro c hc - - rfl
      exact absurd hc hfirst.last_ne
  · rw [hhead]
    exact hfirst.not_digit

/-! ## The grammar -/

namespace TypeExpr

mutual

/-- The tokens of an expression. -/
def tokens : TypeExpr → List Token
  | .named name [] => [.word name]
  | .named name (arg :: rest) =>
    .word name :: .mark '<' :: (arg.tokens ++ (tokensRest rest ++ [.mark '>']))
  | .blanks name arity =>
    .word name :: .mark '<' :: (List.replicate (arity - 1) (.mark ',') ++ [.mark '>'])
  | .nullable inner => inner.tokens ++ [.mark '?']

/-- The tokens of the arguments after the first, each led by its comma. -/
def tokensRest : List TypeExpr → List Token
  | [] => []
  | arg :: rest => .mark ',' :: (arg.tokens ++ tokensRest rest)

end

/-- All names are type names, and no generic type is without argument places. -/
inductive IsGrammatical : TypeExpr → Prop
  | named {name : String} {args : List TypeExpr} (hname : IsTypeName name)
      (hargs : ∀ arg ∈ args, IsGrammatical arg) : IsGrammatical (.named name args)
  | blanks {name : String} {arity : Nat} (hname : IsTypeName name) (harity : 1 ≤ arity) :
      IsGrammatical (.blanks name arity)
  | nullable {inner : TypeExpr} (hinner : IsGrammatical inner) : IsGrammatical (.nullable inner)

/-- The expression may stand inside so many argument lists. -/
structure FitsAt (depth : Nat) (type : TypeExpr) : Prop where
  grammatical : type.IsGrammatical
  nesting_le : type.nesting + depth ≤ maxNesting

variable {name : String} {arity depth : Nat} {type inner : TypeExpr} {args : List TypeExpr}

theorem nestingAll_le_iff {bound : Nat} :
    nestingAll args ≤ bound ↔ ∀ arg ∈ args, arg.nesting ≤ bound := by
  induction args with
  | nil => simp [nestingAll]
  | cons arg args ih => rw [nestingAll, Nat.max_le, ih, List.forall_mem_cons]

theorem nesting_pos : ∀ type : TypeExpr, 0 < type.nesting
  | .named _ _ => by rw [nesting]; exact Nat.succ_pos _
  | .blanks _ _ => by rw [nesting]; exact Nat.one_pos
  | .nullable inner => by rw [nesting]; exact inner.nesting_pos

theorem FitsAt.lt (h : FitsAt depth type) : depth < maxNesting :=
  Nat.lt_of_lt_of_le (Nat.lt_add_of_pos_left type.nesting_pos) h.nesting_le

theorem fitsAt_named_iff : FitsAt depth (.named name args) ↔
    IsTypeName name ∧ depth < maxNesting ∧ ∀ arg ∈ args, FitsAt (depth + 1) arg := by
  constructor
  · rintro ⟨hgrammatical, hnesting⟩
    rw [nesting] at hnesting
    cases hgrammatical with
    | named hname hargs =>
    refine ⟨hname, by omega, fun arg harg => ⟨hargs arg harg, ?_⟩⟩
    have hle := nestingAll_le_iff.mp (Nat.le_refl (nestingAll args)) arg harg
    omega
  · rintro ⟨hname, hdepth, hargs⟩
    refine ⟨.named hname fun arg harg => (hargs arg harg).grammatical, ?_⟩
    have hle : nestingAll args ≤ maxNesting - (depth + 1) := nestingAll_le_iff.mpr fun arg harg =>
      Nat.le_sub_of_add_le (hargs arg harg).nesting_le
    rw [nesting]
    omega

theorem fitsAt_blanks_iff : FitsAt depth (.blanks name arity) ↔
    IsTypeName name ∧ 1 ≤ arity ∧ depth < maxNesting := by
  constructor
  · rintro ⟨hgrammatical, hnesting⟩
    rw [nesting] at hnesting
    cases hgrammatical with
    | blanks hname harity => exact ⟨hname, harity, by omega⟩
  · rintro ⟨hname, harity, hdepth⟩
    refine ⟨.blanks hname harity, ?_⟩
    rw [nesting]
    omega

/-- A nullable mark adds no level. -/
theorem fitsAt_nullable_iff : FitsAt depth (.nullable inner) ↔ FitsAt depth inner := by
  constructor
  · rintro ⟨hgrammatical, hnesting⟩
    cases hgrammatical with
    | nullable hinner => exact ⟨hinner, hnesting⟩
  · rintro ⟨hinner, hnesting⟩
    exact ⟨.nullable hinner, hnesting⟩

/-- Every expression begins with a word. -/
theorem exists_tokens_eq_cons : ∀ type : TypeExpr, ∃ name rest, type.tokens = .word name :: rest
  | .named name [] => ⟨name, [], by rw [tokens]⟩
  | .named name (arg :: rest) => ⟨name, _, by rw [tokens]⟩
  | .blanks name arity => ⟨name, _, by rw [tokens]⟩
  | .nullable inner => by
    obtain ⟨name, rest, h⟩ := exists_tokens_eq_cons inner
    exact ⟨name, rest ++ [.mark '?'], by rw [tokens, h, List.cons_append]⟩

/-- All arguments but the last one are followed by a comma. -/
theorem tokens_append_tokensRest (arg : TypeExpr) (rest : List TypeExpr) (last : TypeExpr) :
    arg.tokens ++ tokensRest (rest ++ [last]) =
      (arg :: rest).flatMap (fun arg => arg.tokens ++ [.mark ',']) ++ last.tokens := by
  induction rest generalizing arg with
  | nil => simp [tokensRest]
  | cons next rest ih =>
    rw [List.flatMap_cons, List.append_assoc, ← ih next, List.cons_append, tokensRest]
    simp

theorem tokens_named_concat (name : String) (args : List TypeExpr) (last : TypeExpr) :
    (TypeExpr.named name (args ++ [last])).tokens = .word name :: .mark '<' ::
      (args.flatMap (fun arg => arg.tokens ++ [.mark ',']) ++ last.tokens ++ [.mark '>']) := by
  cases args with
  | nil => simp [tokens, tokensRest]
  | cons arg rest =>
    rw [List.cons_append, tokens, ← List.append_assoc, tokens_append_tokensRest]

end TypeExpr

/-! ## The reader and the tokens behind it -/

/-- The tokens of an open argument list, up to the comma in front of the next argument. -/
def OpenList.tokens (list : OpenList) : List Token :=
  .word list.name :: .mark '<' :: list.args.reverse.flatMap (fun arg => arg.tokens ++ [.mark ','])

/-- What has been read of an open argument list can stand where it does. -/
structure OpenList.IsSound (list : OpenList) (depth : Nat) : Prop where
  name : IsTypeName list.name
  args : ∀ arg ∈ list.args, TypeExpr.FitsAt (depth + 1) arg

namespace Reader

variable {enclosing : List OpenList} {type : TypeExpr} {token : Token} {consumed : List Token}
  {reader reader' : Reader}

/-- The tokens of all open argument lists, the outermost first. -/
def openTokens : List OpenList → List Token
  | [] => []
  | list :: outer => openTokens outer ++ list.tokens

/-- The tokens that have been read. -/
def tokens : Reader → List Token
  | .atType enclosing => openTokens enclosing
  | .atName enclosing name => openTokens enclosing ++ [.word name]
  | .atBracket enclosing name => openTokens enclosing ++ [.word name, .mark '<']
  | .atBlank enclosing name arity =>
    openTokens enclosing ++ .word name :: .mark '<' :: List.replicate (arity - 1) (.mark ',')
  | .behind enclosing type => openTokens enclosing ++ type.tokens

/-- The open argument lists can stand in one another, and another type can stand in them. -/
def AreSound : List OpenList → Prop
  | [] => True
  | list :: outer => list.IsSound outer.length ∧ outer.length + 1 < maxNesting ∧ AreSound outer

theorem AreSound.length_lt (h : AreSound enclosing) : enclosing.length < maxNesting := by
  cases enclosing with
  | nil => decide
  | cons list outer => exact h.2.1

/-- What has been read can stand where it does: a type is no deeper inside than the lists that are
open allow. -/
def IsSound : Reader → Prop
  | .atType enclosing => AreSound enclosing
  | .atName enclosing name | .atBracket enclosing name => AreSound enclosing ∧ IsTypeName name
  | .atBlank enclosing name arity => AreSound enclosing ∧ IsTypeName name ∧ 1 ≤ arity
  | .behind enclosing type => AreSound enclosing ∧ type.FitsAt enclosing.length

/-- A reader that stands behind some tokens: they are the ones it has read, and they can stand where
they do. -/
structure HasRead (reader : Reader) (consumed : List Token) : Prop where
  sound : reader.IsSound
  tokens_eq : reader.tokens = consumed

/-! ### One token -/

theorem step_atName (enclosing : List OpenList) (name : String) (token : Token) :
    (atName enclosing name).step token =
      if token = .mark '<' then .ok (.atBracket enclosing name)
      else endType (.named name []) enclosing token := by
  unfold step
  split <;> simp_all

theorem step_atBracket (enclosing : List OpenList) (name : String) (token : Token) :
    (atBracket enclosing name).step token =
      if token = .mark ',' then .ok (.atBlank enclosing name 2)
      else if token = .mark '>' then .ok (.behind enclosing (.blanks name 1))
      else if enclosing.length + 1 < maxNesting then beginType (⟨name, []⟩ :: enclosing) token
      else .error .tooDeep := by
  unfold step
  split <;> simp_all

theorem step_atBlank (enclosing : List OpenList) (name : String) (arity : Nat) (token : Token) :
    (atBlank enclosing name arity).step token =
      if token = .mark ',' then .ok (.atBlank enclosing name (arity + 1))
      else if token = .mark '>' then .ok (.behind enclosing (.blanks name arity))
      else .error .blanksUnclosed := by
  unfold step
  split <;> simp_all

theorem beginType_sound (h : AreSound enclosing) (hproper : token.IsProper)
    (hstep : beginType enclosing token = .ok reader) :
    reader.HasRead (openTokens enclosing ++ [token]) := by
  cases token with
  | mark c => cases hstep
  | word name =>
    rw [beginType, readName] at hstep
    split at hstep
    · cases hstep
    · next hfault =>
      cases hstep
      exact ⟨⟨h, isTypeName_iff.mpr ⟨hproper, hfault⟩⟩, rfl⟩

/-- A comma takes the type in front of it into the innermost list. -/
theorem openTokens_cons_cons (name : String) (args : List TypeExpr) (outer : List OpenList)
    (type : TypeExpr) : openTokens (⟨name, type :: args⟩ :: outer) =
      openTokens (⟨name, args⟩ :: outer) ++ type.tokens ++ [.mark ','] := by
  simp [openTokens, OpenList.tokens]

/-- A closing bracket makes a type of the innermost list and the type in front of it. -/
theorem openTokens_close (name : String) (args : List TypeExpr) (outer : List OpenList)
    (type : TypeExpr) : openTokens outer ++ (TypeExpr.named name (type :: args).reverse).tokens =
      openTokens (⟨name, args⟩ :: outer) ++ type.tokens ++ [.mark '>'] := by
  rw [List.reverse_cons, TypeExpr.tokens_named_concat]
  simp [openTokens, OpenList.tokens]

theorem endType_sound (h : AreSound enclosing) (htype : type.FitsAt enclosing.length)
    (hstep : endType type enclosing token = .ok reader) :
    reader.HasRead (openTokens enclosing ++ type.tokens ++ [token]) := by
  unfold endType at hstep
  split at hstep
  · cases hstep
    refine ⟨⟨h, TypeExpr.fitsAt_nullable_iff.mpr htype⟩, ?_⟩
    rw [tokens, TypeExpr.tokens, List.append_assoc]
  · cases hstep
  · next list outer =>
    cases hstep
    obtain ⟨hlist, hdepth, houter⟩ := h
    have hargs := List.forall_mem_cons.mpr ⟨htype, hlist.args⟩
    exact ⟨⟨⟨hlist.name, hargs⟩, hdepth, houter⟩, openTokens_cons_cons _ _ _ _⟩
  · next list outer =>
    cases hstep
    obtain ⟨hlist, hdepth, houter⟩ := h
    have hargs := List.forall_mem_cons.mpr ⟨htype, hlist.args⟩
    refine ⟨⟨houter, TypeExpr.fitsAt_named_iff.mpr ⟨hlist.name, houter.length_lt, ?_⟩⟩,
      openTokens_close _ _ _ _⟩
    exact fun arg harg => hargs arg (List.mem_reverse.mp harg)
  · cases hstep

/-- One token is added to those that have been read. -/
theorem step_sound (h : reader.HasRead consumed) (hproper : token.IsProper)
    (hstep : reader.step token = .ok reader') : reader'.HasRead (consumed ++ [token]) := by
  obtain ⟨hsound, rfl⟩ := h
  cases reader with
  | atType enclosing => exact beginType_sound hsound hproper hstep
  | atName enclosing name =>
    obtain ⟨henclosing, hname⟩ := hsound
    rw [step_atName] at hstep
    split at hstep
    · next hopen =>
      cases hstep
      refine ⟨⟨henclosing, hname⟩, ?_⟩
      rw [hopen, tokens, tokens, List.append_assoc, List.singleton_append]
    · have hfits : (TypeExpr.named name []).FitsAt enclosing.length := TypeExpr.fitsAt_named_iff.mpr
        ⟨hname, henclosing.length_lt, fun _ h => nomatch h⟩
      have hread := endType_sound henclosing hfits hstep
      rwa [TypeExpr.tokens] at hread
  | atBracket enclosing name =>
    obtain ⟨henclosing, hname⟩ := hsound
    rw [step_atBracket] at hstep
    split_ifs at hstep with hcomma hclose hdepth
    · cases hstep
      refine ⟨⟨henclosing, hname, by decide⟩, ?_⟩
      rw [hcomma, tokens, tokens, List.append_assoc]
      rfl
    · cases hstep
      have hfits := TypeExpr.fitsAt_blanks_iff.mpr ⟨hname, Nat.le_refl 1, henclosing.length_lt⟩
      refine ⟨⟨henclosing, hfits⟩, ?_⟩
      rw [hclose, tokens, tokens, TypeExpr.tokens, List.append_assoc]
      rfl
    · have hlist : OpenList.IsSound ⟨name, []⟩ enclosing.length := ⟨hname, fun _ h => nomatch h⟩
      have hsound : AreSound (⟨name, []⟩ :: enclosing) := ⟨hlist, hdepth, henclosing⟩
      have hread := beginType_sound hsound hproper hstep
      rwa [openTokens] at hread
  | atBlank enclosing name arity =>
    obtain ⟨henclosing, hname, harity⟩ := hsound
    obtain ⟨commas, rfl⟩ := Nat.exists_eq_add_of_le' harity
    rw [step_atBlank] at hstep
    split_ifs at hstep with hcomma hclose
    · cases hstep
      refine ⟨⟨henclosing, hname, Nat.le_add_left 1 _⟩, ?_⟩
      rw [hcomma, tokens, tokens, List.append_assoc, Nat.add_sub_cancel, Nat.add_sub_cancel,
        List.replicate_succ']
      rfl
    · cases hstep
      have hfits := TypeExpr.fitsAt_blanks_iff.mpr ⟨hname, harity, henclosing.length_lt⟩
      refine ⟨⟨henclosing, hfits⟩, ?_⟩
      rw [hclose, tokens, tokens, TypeExpr.tokens, List.append_assoc]
      rfl
  | behind enclosing type => exact endType_sound hsound.1 hsound.2 hstep

/-! ### Many tokens -/

/-- The reader after some tokens, whatever their places. -/
def steps (reader : Reader) (tokens : List Token) : Except ParseFault Reader :=
  tokens.foldlM step reader

theorem steps_cons_of_ok (h : reader.step token = .ok reader') (rest : List Token) :
    reader.steps (token :: rest) = reader'.steps rest := by
  rw [steps, List.foldlM_cons, h]
  rfl

theorem steps_append_of_ok {front : List Token} (h : reader.steps front = .ok reader')
    (rest : List Token) : reader.steps (front ++ rest) = reader'.steps rest := by
  rw [steps] at h
  rw [steps, List.foldlM_append, h]
  rfl

/-- All tokens of a text are read without a fault exactly if they are without their places. -/
theorem run_eq_ok_iff {lexemes : List Lexeme} :
    reader.run lexemes = .ok reader' ↔ reader.steps (lexemes.map (·.token)) = .ok reader' := by
  induction lexemes generalizing reader with
  | nil =>
    constructor
    · intro h
      cases h
      rfl
    · intro h
      cases h
      rfl
  | cons lexeme lexemes ih =>
    rw [run, List.foldlM_cons, List.map_cons]
    cases hstep : reader.step lexeme.token with
    | error fault =>
      rw [steps, List.foldlM_cons, hstep]
      exact iff_of_false (fun h => nomatch h) (fun h => nomatch h)
    | ok next =>
      rw [steps_cons_of_ok hstep]
      exact ih

/-- Many tokens are added to those that have been read. -/
theorem HasRead.steps_sound {tokens : List Token} (h : reader.HasRead consumed)
    (hproper : ∀ token ∈ tokens, token.IsProper) (hsteps : reader.steps tokens = .ok reader') :
    reader'.HasRead (consumed ++ tokens) := by
  induction tokens generalizing reader consumed with
  | nil =>
    cases hsteps
    rwa [List.append_nil]
  | cons token tokens ih =>
    obtain ⟨htoken, htokens⟩ := List.forall_mem_cons.mp hproper
    cases hstep : reader.step token with
    | error fault =>
      rw [steps, List.foldlM_cons, hstep] at hsteps
      cases hsteps
    | ok next =>
      rw [steps_cons_of_ok hstep] at hsteps
      have hread := ih (step_sound h htoken hstep) htokens hsteps
      rwa [List.append_assoc] at hread

/-- The expression that is returned at the end has the tokens that have been read, and keeps to the
rules. -/
theorem finish_sound (h : reader.HasRead consumed) (hfinish : reader.finish = .ok type) :
    type.tokens = consumed ∧ type.FitsAt 0 := by
  obtain ⟨hsound, rfl⟩ := h
  unfold finish at hfinish
  split at hfinish
  · cases hfinish
  · cases hfinish
    exact ⟨by rw [tokens, TypeExpr.tokens]; rfl,
      TypeExpr.fitsAt_named_iff.mpr ⟨hsound.2, by decide, fun _ h => nomatch h⟩⟩
  · cases hfinish
  · cases hfinish
  · cases hfinish
    exact ⟨rfl, hsound.2⟩
  · cases hfinish
  · cases hfinish

/-! ### Complete expressions -/

/-- The reader stands behind a type that may be complete: only an argument list could follow on it,
and only if it is a name. -/
def Completes (reader : Reader) (enclosing : List OpenList) (type : TypeExpr) : Prop :=
  reader = .behind enclosing type ∨
    ∃ name, reader = .atName enclosing name ∧ type = .named name []

theorem Completes.step (h : reader.Completes enclosing type) {c : Char} (hc : c ≠ '<') :
    reader.step (.mark c) = endType type enclosing (.mark c) := by
  rcases h with rfl | ⟨name, rfl, rfl⟩
  · rfl
  · rw [step_atName, if_neg fun heq => hc (Token.mark.inj heq)]

theorem Completes.finish (h : reader.Completes [] type) : reader.finish = .ok type := by
  rcases h with rfl | ⟨name, rfl, rfl⟩ <;> rfl

end Reader

namespace TypeExpr

/-- Wherever the expression fits, the reader comes through its tokens. -/
def Reads (type : TypeExpr) : Prop :=
  ∀ enclosing : List OpenList, type.FitsAt enclosing.length →
    ∃ reader, (Reader.atType enclosing).steps type.tokens = .ok reader ∧
      reader.Completes enclosing type

theorem step_word {name : String} (h : IsTypeName name) (enclosing : List OpenList) :
    (Reader.atType enclosing).step (.word name) = .ok (.atName enclosing name) := by
  rw [Reader.step, Reader.beginType, Reader.readName, (isTypeName_iff.mp h).2]

/-- Behind a bracket an expression is read as the first argument. -/
theorem steps_atBracket {enclosing : List OpenList} (henclosing : enclosing.length + 1 < maxNesting)
    (name : String) (type : TypeExpr) (rest : List Token) :
    (Reader.atBracket enclosing name).steps (type.tokens ++ rest) =
      (Reader.atType (⟨name, []⟩ :: enclosing)).steps (type.tokens ++ rest) := by
  obtain ⟨word, more, htokens⟩ := type.exists_tokens_eq_cons
  have hstep : (Reader.atBracket enclosing name).step (.word word) =
      (Reader.atType (⟨name, []⟩ :: enclosing)).step (.word word) := by
    rw [Reader.step_atBracket, if_neg (fun h => nomatch h), if_neg (fun h => nomatch h),
      if_pos henclosing]
    rfl
  rw [htokens, List.cons_append, Reader.steps, Reader.steps, List.foldlM_cons, List.foldlM_cons,
    hstep]

/-- The arguments that are still to come are read up to the end of their list. -/
theorem steps_tokensRest {rest : List TypeExpr} (hreads : ∀ arg ∈ rest, arg.Reads)
    {enclosing : List OpenList} (hfits : ∀ arg ∈ rest, FitsAt (enclosing.length + 1) arg)
    {name : String} {reader : Reader} {args : List TypeExpr} {type : TypeExpr}
    (h : reader.Completes (⟨name, args⟩ :: enclosing) type) :
    reader.steps (tokensRest rest ++ [.mark '>']) =
      .ok (.behind enclosing (.named name (args.reverse ++ type :: rest))) := by
  -- at every comma the type in front of it joins the arguments that have been read
  induction rest generalizing reader args type with
  | nil =>
    have hstep : reader.step (.mark '>') =
        .ok (.behind enclosing (.named name (type :: args).reverse)) := h.step (by decide)
    rw [tokensRest, List.nil_append, Reader.steps_cons_of_ok hstep, List.reverse_cons]
    rfl
  | cons arg rest ih =>
    obtain ⟨hreadsArg, hreadsRest⟩ := List.forall_mem_cons.mp hreads
    obtain ⟨hfitsArg, hfitsRest⟩ := List.forall_mem_cons.mp hfits
    have hstep : reader.step (.mark ',') = .ok (.atType (⟨name, type :: args⟩ :: enclosing)) :=
      h.step (by decide)
    obtain ⟨next, hnext, hcompletes⟩ := hreadsArg (⟨name, type :: args⟩ :: enclosing) hfitsArg
    rw [tokensRest, List.cons_append, Reader.steps_cons_of_ok hstep, List.append_assoc,
      Reader.steps_append_of_ok hnext, ih hreadsRest hfitsRest hcompletes, List.reverse_cons,
      List.append_assoc, List.singleton_append]

/-- Blank places are read up to the end of their list. -/
theorem steps_commas (enclosing : List OpenList) (name : String) (commas arity : Nat) :
    (Reader.atBlank enclosing name arity).steps (List.replicate commas (.mark ',') ++ [.mark '>']) =
      .ok (.behind enclosing (.blanks name (arity + commas))) := by
  induction commas generalizing arity with
  | zero => rfl
  | succ commas ih =>
    have hstep : (Reader.atBlank enclosing name arity).step (.mark ',') =
        .ok (.atBlank enclosing name (arity + 1)) := rfl
    rw [List.replicate_succ, List.cons_append, Reader.steps_cons_of_ok hstep, ih, Nat.add_assoc,
      Nat.add_comm 1]

/-- The reader comes through the tokens of every grammatical expression. -/
theorem IsGrammatical.reads {type : TypeExpr} (h : type.IsGrammatical) : type.Reads := by
  induction h with
  | @named name args hname hargs ih =>
    intro enclosing hfits
    obtain ⟨-, hdepth, hfitsArgs⟩ := fitsAt_named_iff.mp hfits
    have hword := step_word hname enclosing
    cases args with
    | nil =>
      refine ⟨_, ?_, .inr ⟨name, rfl, rfl⟩⟩
      rw [tokens, Reader.steps_cons_of_ok hword]
      rfl
    | cons arg rest =>
      obtain ⟨hreadsArg, hreadsRest⟩ := List.forall_mem_cons.mp ih
      obtain ⟨hfitsArg, hfitsRest⟩ := List.forall_mem_cons.mp hfitsArgs
      -- there is room for one more level, because there is an argument
      have hroom : enclosing.length + 1 < maxNesting := hfitsArg.lt
      have hopen : (Reader.atName enclosing name).step (.mark '<') =
          .ok (.atBracket enclosing name) := rfl
      obtain ⟨next, hnext, hcompletes⟩ := hreadsArg (⟨name, []⟩ :: enclosing) hfitsArg
      refine ⟨_, ?_, .inl rfl⟩
      rw [tokens, Reader.steps_cons_of_ok hword, Reader.steps_cons_of_ok hopen,
        steps_atBracket hroom, Reader.steps_append_of_ok hnext,
        steps_tokensRest hreadsRest hfitsRest hcompletes]
      rfl
  | @blanks name arity hname harity =>
    intro enclosing hfits
    obtain ⟨commas, rfl⟩ := Nat.exists_eq_add_of_le' harity
    have hword := step_word hname enclosing
    have hopen : (Reader.atName enclosing name).step (.mark '<') =
        .ok (.atBracket enclosing name) := rfl
    refine ⟨_, ?_, .inl rfl⟩
    rw [tokens, Reader.steps_cons_of_ok hword, Reader.steps_cons_of_ok hopen, Nat.add_sub_cancel]
    cases commas with
    | zero => rfl
    | succ commas =>
      have hcomma : (Reader.atBracket enclosing name).step (.mark ',') =
          .ok (.atBlank enclosing name 2) := rfl
      rw [List.replicate_succ, List.cons_append, Reader.steps_cons_of_ok hcomma, steps_commas,
        Nat.add_comm 2]
  | @nullable inner _ ih =>
    intro enclosing hfits
    obtain ⟨next, hnext, hcompletes⟩ := ih enclosing (fitsAt_nullable_iff.mp hfits)
    have hmark : next.step (.mark '?') = .ok (.behind enclosing (.nullable inner)) := by
      rw [hcompletes.step (by decide), Reader.endType]
    refine ⟨_, ?_, .inl rfl⟩
    rw [tokens, Reader.steps_append_of_ok hnext, Reader.steps_cons_of_ok hmark]
    rfl

/-! ## Texts -/

theorem separated_tokensRest {arg : TypeExpr} (harg : Token.Separated arg.tokens)
    {rest : List TypeExpr} (hrest : ∀ arg ∈ rest, Token.Separated arg.tokens) :
    Token.Separated (arg.tokens ++ tokensRest rest) := by
  induction rest generalizing arg with
  | nil =>
    rw [tokensRest, List.append_nil]
    exact harg
  | cons next rest ih =>
    obtain ⟨hnext, hrest⟩ := List.forall_mem_cons.mp hrest
    rw [tokensRest]
    exact harg.append_mark (by decide +kernel) (ih hnext hrest)

/-- The tokens of a grammatical expression are separated: no word follows another one. -/
theorem IsGrammatical.separated {type : TypeExpr} (h : type.IsGrammatical) :
    Token.Separated type.tokens := by
  have hlist : ∀ {name : String} {inner : List Token}, IsTypeName name → Token.Separated inner →
      Token.Separated (.word name :: .mark '<' :: (inner ++ [.mark '>'])) := by
    intro name inner hname hinner
    have hclosed := hinner.append_mark (by decide +kernel : (Token.mark '>').IsProper) .nil
    exact (Token.Separated.singleton (isTypeName_iff.mp hname).1).append_mark (by decide +kernel)
      hclosed
  induction h with
  | @named name args hname hargs ih =>
    cases args with
    | nil =>
      rw [tokens]
      exact .singleton (isTypeName_iff.mp hname).1
    | cons arg rest =>
      obtain ⟨harg, hrest⟩ := List.forall_mem_cons.mp ih
      rw [tokens, ← List.append_assoc]
      exact hlist hname (separated_tokensRest harg hrest)
  | @blanks name arity hname harity =>
    rw [tokens]
    refine hlist hname ?_
    induction arity - 1 with
    | zero => exact .nil
    | succ commas ih => exact Token.Separated.nil.append_mark (by decide +kernel) ih
  | nullable _ ih =>
    rw [tokens]
    exact ih.append_mark (by decide +kernel) .nil

mutual

/-- The text that is written for an expression spells its tokens. -/
theorem spells_render : ∀ type : TypeExpr, Spells type.render.toList type.tokens
  | .named name [] => by
    rw [render, tokens]
    exact .singleton (.word name)
  | .named name (arg :: rest) => by
    have hrest := (spells_renderRest rest).append (.singleton (.mark '>'))
    have hargs := (Spells.singleton (.mark '<')).append ((spells_render arg).append hrest)
    have hall := (Spells.singleton (.word name)).append hargs
    simpa [render, tokens, Token.chars] using hall
  | .blanks name arity => by
    have hcommas : Spells (List.replicate (arity - 1) ',')
        (List.replicate (arity - 1) (.mark ',')) := by
      induction arity - 1 with
      | zero => exact .empty
      | succ commas ih => exact (Spells.singleton (.mark ',')).append ih
    have hlist := (Spells.singleton (.mark '<')).append
      (hcommas.append (.singleton (.mark '>')))
    have hall := (Spells.singleton (.word name)).append hlist
    simpa [render, tokens, Token.chars] using hall
  | .nullable inner => by
    have hall := (spells_render inner).append (.singleton (.mark '?'))
    simpa [render, tokens, Token.chars] using hall

theorem spells_renderRest : ∀ rest : List TypeExpr,
    Spells (renderRest rest).toList (tokensRest rest)
  | [] => .empty
  | arg :: rest => by
    have hrest := (spells_render arg).append (spells_renderRest rest)
    have hspace := hrest.blank_cons (by decide : Text.isBlank ' ' = true)
    have hall := (Spells.singleton (.mark ',')).append hspace
    simpa [renderRest, tokensRest, Token.chars] using hall

end

/-! ## Parsing -/

theorem parse_eq_ok_iff_steps {text : String} {type : TypeExpr} :
    parse text = .ok type ↔ ∃ reader,
      Reader.start.steps ((Lexeme.scan 0 text.toList).map (·.token)) = .ok reader ∧
        reader.finish = .ok type := by
  unfold parse
  cases hrun : Reader.start.run (Lexeme.scan 0 text.toList) with
  | error fault =>
    refine iff_of_false (fun h => nomatch h) ?_
    rintro ⟨reader, hsteps, -⟩
    rw [Reader.run_eq_ok_iff.mpr hsteps] at hrun
    cases hrun
  | ok reader =>
    rw [Reader.run_eq_ok_iff.mp hrun]
    show (reader.finish.mapError _ = .ok type) ↔ _
    constructor
    · intro h
      cases hfinish : reader.finish with
      | error fault =>
        rw [hfinish] at h
        cases h
      | ok found =>
        rw [hfinish] at h
        cases h
        exact ⟨reader, rfl, hfinish⟩
    · rintro ⟨reader', heq, hfinish⟩
      cases heq
      rw [hfinish]
      rfl

/-- A text is read as an expression exactly if it spells its tokens and the expression keeps to the
rules. -/
theorem parse_eq_ok_iff {text : String} {type : TypeExpr} :
    parse text = .ok type ↔ type.FitsAt 0 ∧ Spells text.toList type.tokens := by
  rw [parse_eq_ok_iff_steps]
  obtain ⟨hspells, hproper⟩ := Lexeme.spells_scan 0 text.toList
  constructor
  · rintro ⟨reader, hsteps, hfinish⟩
    -- the tokens of the expression are those that have been read, and the text spells these
    have hstart : Reader.start.HasRead [] := ⟨trivial, rfl⟩
    obtain ⟨htokens, hfits⟩ := Reader.finish_sound (hstart.steps_sound hproper hsteps) hfinish
    rw [htokens]
    exact ⟨hfits, hspells⟩
  · rintro ⟨hfits, hspells⟩
    -- the tokens of the expression are separated, so they are the ones that are found
    have htokens := Lexeme.scan_of_spells hspells hfits.grammatical.separated 0
    obtain ⟨reader, hsteps, hcompletes⟩ := hfits.grammatical.reads [] hfits
    exact ⟨reader, htokens ▸ hsteps, hcompletes.finish⟩

/-- A type name is read as itself. -/
theorem parse_name {name : String} (h : IsTypeName name) : parse name = .ok (.named name []) :=
  parse_eq_ok_iff.mpr ⟨fitsAt_named_iff.mpr ⟨h, by decide, fun _ harg => nomatch harg⟩,
    .singleton (.word name)⟩

/-- A text is read as an expression exactly if it consists of the tokens of the expression, with
blanks around them, all names in it are type names, and no more argument lists are nested in one
another than is allowed. So a text is read as one expression at most, and the text that is written
for an expression that was read is read as this expression again. -/
theorem parse_eq_ok_iff_spells (text : String) (type : TypeExpr) :
    (parse text = .ok type ↔
      Spells text.toList type.tokens ∧ type.IsGrammatical ∧ type.nesting ≤ maxNesting) ∧
    (∀ other : TypeExpr, parse text = .ok type → Spells text.toList other.tokens →
      other.IsGrammatical → other.nesting ≤ maxNesting → other = type) ∧
    (parse text = .ok type → parse type.render = .ok type) := by
  have hiff : ∀ other : TypeExpr, parse text = .ok other ↔
      Spells text.toList other.tokens ∧ other.IsGrammatical ∧ other.nesting ≤ maxNesting := by
    intro other
    rw [parse_eq_ok_iff]
    constructor
    · rintro ⟨⟨hgrammatical, hnesting⟩, hspells⟩
      exact ⟨hspells, hgrammatical, hnesting⟩
    · rintro ⟨hspells, hgrammatical, hnesting⟩
      exact ⟨⟨hgrammatical, hnesting⟩, hspells⟩
  refine ⟨hiff type, fun other hparse hspells hgrammatical hnesting => ?_, fun hparse => ?_⟩
  · have hother := (hiff other).mpr ⟨hspells, hgrammatical, hnesting⟩
    rw [hparse] at hother
    cases hother
    rfl
  · exact parse_eq_ok_iff.mpr ⟨(parse_eq_ok_iff.mp hparse).1, type.spells_render⟩

/-- Blanks may stand everywhere but inside of names, and are not kept. -/
theorem parse_oddlySpaced :
    parse " Map<\tint ?,a.List <> >" =
        .ok (.named "Map" [.nullable (.named "int" []), .blanks "a.List" 1]) ∧
      parse "Map<int?, a.List<>>" =
        .ok (.named "Map" [.nullable (.named "int" []), .blanks "a.List" 1]) := by
  have hgrammatical :
      (TypeExpr.named "Map" [.nullable (.named "int" []), .blanks "a.List" 1]).IsGrammatical := by
    refine .named (by decide +kernel) (List.forall_mem_cons.mpr ⟨?_, ?_⟩)
    · exact .nullable (.named (by decide +kernel) fun _ h => nomatch h)
    · exact List.forall_mem_singleton.mpr (.blanks (by decide +kernel) (Nat.le_refl 1))
  have hspells : Spells " Map<\tint ?,a.List <> >".toList
      (TypeExpr.named "Map" [.nullable (.named "int" []), .blanks "a.List" 1]).tokens := by
    have hblank : Text.isBlank ' ' = true := by decide
    have hlist := Spells.empty.token_cons (.mark '>') |>.blank_cons hblank |>.token_cons (.mark '>')
      |>.token_cons (.mark '<') |>.blank_cons hblank |>.token_cons (.word "a.List")
    have hargs := hlist.token_cons (.mark ',') |>.token_cons (.mark '?') |>.blank_cons hblank
      |>.token_cons (.word "int")
    exact hargs.blank_cons (by decide : Text.isBlank '\t' = true) |>.token_cons (.mark '<')
      |>.token_cons (.word "Map") |>.blank_cons hblank
  obtain ⟨hiff, -, hrender⟩ := parse_eq_ok_iff_spells " Map<\tint ?,a.List <> >"
    (.named "Map" [.nullable (.named "int" []), .blanks "a.List" 1])
  have hparse := hiff.mpr ⟨hspells, hgrammatical, by decide⟩
  exact ⟨hparse, hrender hparse⟩

end TypeExpr

end NominalTypes
