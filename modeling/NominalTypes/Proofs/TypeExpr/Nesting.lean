import Mathlib.Logic.Function.Iterate
import NominalTypes.Proofs.TypeExpr.Grammar

/-!
# How deeply expressions are nested

Types are nested in one another in two ways, by generic arguments and by nullable marks. The reader
counts the argument lists that are open, and refuses a type inside of too many of them. A mark
stands behind its type and opens nothing, so marks are not counted, and there may be any number of
them.

- `TypeExpr.depth`: the levels of both kinds together.
- `TypeExpr.IsGrammatical.refuses`: the reader stops in an expression with too many argument lists.
- `TypeExpr.parse_append_marks`: marks may be added to every text.
- `TypeExpr.parse_levels`: the main result.
- `TypeExpr.not_capped`: an expression with more levels than argument lists may have.
-/

namespace NominalTypes

namespace Reader

/-- All tokens of a text are read without regard to their places, also up to the first fault. -/
theorem run_eq_error_of_steps {lexemes : List Lexeme} {reader : Reader} {fault : ParseFault}
    (h : reader.steps (lexemes.map (·.token)) = .error fault) :
    ∃ offset, reader.run lexemes = .error ⟨offset, fault⟩ := by
  induction lexemes generalizing reader with
  | nil => cases h
  | cons lexeme lexemes ih =>
    rw [run, List.foldlM_cons]
    cases hstep : reader.step lexeme.token with
    | error other =>
      rw [List.map_cons, steps, List.foldlM_cons, hstep] at h
      cases h
      exact ⟨lexeme.offset, rfl⟩
    | ok next =>
      rw [List.map_cons, steps_cons_of_ok hstep] at h
      exact ih h

end Reader

namespace TypeExpr

mutual

/-- Levels of generic arguments and of nullable marks, the expression itself counted. -/
def depth : TypeExpr → Nat
  | .named _ args => depthAll args + 1
  | .blanks _ _ => 1
  | .nullable inner => inner.depth + 1

/-- The greatest depth in a list of arguments. -/
def depthAll : List TypeExpr → Nat
  | [] => 0
  | arg :: rest => max arg.depth (depthAll rest)

end

variable {text name : String} {type : TypeExpr} {read args : List TypeExpr}
  {enclosing : List OpenList}

/-! ## Too many argument lists -/

/-- Inside of so many argument lists, the reader stops in the expression, whatever follows. -/
def Refuses (lists : Nat) (type : TypeExpr) : Prop :=
  ∀ (enclosing : List OpenList) (rest : List Token), enclosing.length = lists →
    (Reader.atType enclosing).steps (type.tokens ++ rest) = .error .tooDeep

/-- What can be read is not refused. -/
theorem Reads.not_refuses (h : type.Reads) (hfits : type.FitsAt enclosing.length) :
    ¬ Refuses enclosing.length type := by
  intro hrefuses
  obtain ⟨reader, hsteps, -⟩ := h enclosing hfits
  have herror := hrefuses enclosing [] rfl
  rw [List.append_nil, hsteps] at herror
  cases herror

/-- The first argument with too many levels stops the reader, after those in front of it have been
read. -/
theorem steps_arguments_of_refuses {arg : TypeExpr}
    (hgrammatical : ∀ a ∈ arg :: args, a.IsGrammatical)
    (hfits : ∀ a ∈ arg :: args,
      FitsAt (enclosing.length + 1) a ∨ Refuses (enclosing.length + 1) a)
    (hdeep : ∃ a ∈ arg :: args, Refuses (enclosing.length + 1) a) (rest : List Token) :
    (Reader.atType (⟨name, read⟩ :: enclosing)).steps (arg.tokens ++ (tokensRest args ++ rest)) =
      .error .tooDeep := by
  induction args generalizing arg read with
  | nil =>
    obtain ⟨deep, hmem, hrefuses⟩ := hdeep
    rw [List.mem_singleton.mp hmem] at hrefuses
    exact hrefuses _ _ rfl
  | cons next args ih =>
    obtain ⟨harg, hrest⟩ := List.forall_mem_cons.mp hgrammatical
    obtain ⟨hfitsArg, hfitsRest⟩ := List.forall_mem_cons.mp hfits
    rcases hfitsArg with hfitsArg | hrefuses
    swap
    · exact hrefuses _ _ rfl
    obtain ⟨reader, hsteps, hcompletes⟩ := harg.reads (⟨name, read⟩ :: enclosing) hfitsArg
    have hcomma : reader.step (.mark ',') = .ok (.atType (⟨name, arg :: read⟩ :: enclosing)) :=
      hcompletes.step (by decide)
    have hlater : ∃ a ∈ next :: args, Refuses (enclosing.length + 1) a := by
      obtain ⟨deep, hmem, hrefuses⟩ := hdeep
      rcases List.mem_cons.mp hmem with rfl | hmem
      · have hfits : deep.FitsAt (⟨name, read⟩ :: enclosing : List OpenList).length := hfitsArg
        exact absurd hrefuses (harg.reads.not_refuses hfits)
      · exact ⟨deep, hmem, hrefuses⟩
    rw [Reader.steps_append_of_ok hsteps, tokensRest, List.cons_append,
      Reader.steps_cons_of_ok hcomma, List.append_assoc]
    exact ih hrest hfitsRest hlater

/-- Behind a bracket that opens one list too many, no argument can begin. -/
theorem steps_atBracket_of_full (h : ¬ enclosing.length + 1 < maxNesting) (name : String)
    (type : TypeExpr) (rest : List Token) :
    (Reader.atBracket enclosing name).steps (type.tokens ++ rest) = .error .tooDeep := by
  obtain ⟨word, more, htokens⟩ := type.exists_tokens_eq_cons
  rw [htokens, List.cons_append, Reader.steps, List.foldlM_cons, Reader.step_atBracket,
    if_neg (by simp), if_neg (by simp), if_neg h]
  rfl

/-- An expression with too many levels of arguments stops the reader. -/
theorem IsGrammatical.refuses (h : type.IsGrammatical) {lists : Nat} (hlists : lists < maxNesting)
    (hdeep : maxNesting < type.nesting + lists) : Refuses lists type := by
  -- the level that is one too many is that of the arguments themselves, or lies in one of them
  induction h generalizing lists with
  | @named name args hname hargs ih =>
    rintro enclosing rest rfl
    rw [nesting] at hdeep
    cases args with
    | nil =>
      rw [nestingAll] at hdeep
      omega
    | cons arg args =>
      have hword := step_word hname enclosing
      have hopen : (Reader.atName enclosing name).step (.mark '<') =
          .ok (.atBracket enclosing name) := rfl
      rw [tokens, List.cons_append, List.cons_append, Reader.steps_cons_of_ok hword,
        Reader.steps_cons_of_ok hopen, List.append_assoc, List.append_assoc]
      by_cases hroom : enclosing.length + 1 < maxNesting
      swap
      · exact steps_atBracket_of_full hroom name arg _
      rw [steps_atBracket hroom]
      have hfits : ∀ a ∈ arg :: args,
          FitsAt (enclosing.length + 1) a ∨ Refuses (enclosing.length + 1) a := by
        intro a ha
        by_cases hle : a.nesting + (enclosing.length + 1) ≤ maxNesting
        · exact .inl ⟨hargs a ha, hle⟩
        · exact .inr (ih a ha hroom (Nat.lt_of_not_le hle))
      refine steps_arguments_of_refuses hargs hfits ?_ _
      by_contra hnone
      have hall : nestingAll (arg :: args) ≤ maxNesting - (enclosing.length + 1) :=
        nestingAll_le_iff.mpr fun a ha => Nat.le_sub_of_add_le
          ((hfits a ha).resolve_right fun hrefuses => hnone ⟨a, ha, hrefuses⟩).nesting_le
      omega
  | @blanks name arity hname harity =>
    rw [nesting] at hdeep
    omega
  | @nullable inner _ ih =>
    intro enclosing rest hlength
    rw [nesting] at hdeep
    rw [tokens, List.append_assoc]
    exact ih hlists hdeep enclosing _ hlength

/-- So a text with such an expression is refused. -/
theorem IsGrammatical.parse_eq_tooDeep (h : type.IsGrammatical)
    (hspells : Spells text.toList type.tokens) (hdeep : maxNesting < type.nesting) :
    ∃ offset, parse text = .error ⟨offset, .tooDeep⟩ := by
  have hsteps : Reader.start.steps type.tokens = .error .tooDeep := by
    have hrefuses := h.refuses (by decide : 0 < maxNesting) hdeep [] [] rfl
    rwa [List.append_nil] at hrefuses
  rw [← Lexeme.scan_of_spells hspells h.separated 0] at hsteps
  obtain ⟨offset, hrun⟩ := Reader.run_eq_error_of_steps hsteps
  exact ⟨offset, by rw [parse, hrun]; rfl⟩

/-! ## Any number of marks -/

/-- A run of nullable marks. -/
def markText (marks : Nat) : String := String.ofList (List.replicate marks '?')

theorem spells_markText (marks : Nat) :
    Spells (markText marks).toList (List.replicate marks (.mark '?')) := by
  rw [markText, String.toList_ofList]
  induction marks with
  | zero => exact .empty
  | succ marks ih => exact ih.token_cons (.mark '?')

theorem tokens_iterate_nullable (type : TypeExpr) (marks : Nat) :
    (nullable^[marks] type).tokens = type.tokens ++ List.replicate marks (.mark '?') := by
  induction marks with
  | zero => simp
  | succ marks ih =>
    rw [Function.iterate_succ_apply', tokens, ih, List.replicate_succ', List.append_assoc]

theorem depth_iterate_nullable (type : TypeExpr) (marks : Nat) :
    (nullable^[marks] type).depth = type.depth + marks := by
  induction marks with
  | zero => rfl
  | succ marks ih =>
    rw [Function.iterate_succ_apply', depth, ih, Nat.add_assoc]

/-- Marks behind a text that is read are read as well. -/
theorem parse_append_marks (h : parse text = .ok type) (marks : Nat) :
    parse (text ++ markText marks) = .ok (nullable^[marks] type) := by
  rw [parse_eq_ok_iff] at h ⊢
  obtain ⟨hfits, hspells⟩ := h
  constructor
  · induction marks with
    | zero => exact hfits
    | succ marks ih =>
      rw [Function.iterate_succ_apply']
      exact fitsAt_nullable_iff.mpr ih
  · rw [String.toList_append, tokens_iterate_nullable]
    exact hspells.append (spells_markText marks)

/-! ## Levels -/

/-- An expression that is read has no more levels of arguments than are allowed, and a text with
more of them is refused as too deep. Nullable marks are not counted: any number of them may be added
to a text that is read, and each of them adds a level to the expression. -/
theorem parse_levels (text : String) (type : TypeExpr) :
    (parse text = .ok type → type.nesting ≤ maxNesting ∧ ∀ marks : Nat,
      parse (text ++ markText marks) = .ok (nullable^[marks] type) ∧
        (nullable^[marks] type).depth = type.depth + marks) ∧
    (type.IsGrammatical → Spells text.toList type.tokens → maxNesting < type.nesting →
      ∃ offset, parse text = .error ⟨offset, .tooDeep⟩) := by
  refine ⟨fun hparse => ⟨(parse_eq_ok_iff.mp hparse).1.nesting_le, fun marks => ?_⟩, ?_⟩
  · exact ⟨parse_append_marks hparse marks, depth_iterate_nullable type marks⟩
  · exact fun hgrammatical hspells hdeep => hgrammatical.parse_eq_tooDeep hspells hdeep

theorem parse_letter : parse "A" = .ok (.named "A" []) := parse_name (by decide +kernel)

/-- A name with three marks. -/
theorem levels_of_marks : parse "A???" = .ok (.nullable (.nullable (.nullable (.named "A" [])))) ∧
    (TypeExpr.nullable (.nullable (.nullable (.named "A" [])))).depth = 4 := by
  obtain ⟨-, hmarks⟩ := (parse_levels "A" (.named "A" [])).1 parse_letter
  exact hmarks 3

/-- A name with `1001` marks is read, and has more levels than argument lists may have. -/
theorem not_capped : ∃ type, parse ("A" ++ markText 1001) = .ok type ∧ maxNesting < type.depth := by
  refine ⟨_, parse_append_marks parse_letter 1001, ?_⟩
  rw [depth_iterate_nullable]
  decide

end TypeExpr

end NominalTypes
