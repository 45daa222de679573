import NominalTypes.Proofs.TypeExpr.Grammar

/-!
# Where faults are reported

The reader never looks ahead, and it goes on only while an expression can still come of what it has
read: a name, if one is missing, and brackets that close the open lists make one. So the text in
front of a fault is the beginning of an expression. What stands at the fault is a whole token, and
the fault does not depend on anything behind this token.

- `Token.leading?`: the token at the beginning of a text.
- `Lexeme.CutsAt`, `Lexeme.exists_cutsAt`: texts cut in front of a token.
- `Reader.exists_completion`: what has been read is the beginning of an expression.
- `Reader.run_eq_error_iff`: a fault is that of one token.
- `TypeExpr.parse_error_exact`: the main result.
-/

namespace NominalTypes

/-! ## Cutting a text in front of a token -/

/-- The token at the beginning of a text: a run of name characters that cannot be made longer, or
any other character. -/
def Token.leading? : List Char → Option Token
  | [] => none
  | c :: rest =>
    if isNameChar c then some (.word (String.ofList (c :: rest.takeWhile isNameChar)))
    else some (.mark c)

theorem Token.leading?_eq_none_iff {text : List Char} : leading? text = none ↔ text = [] := by
  cases text with
  | nil => exact iff_of_true rfl rfl
  | cons c rest =>
    refine iff_of_false (fun h => ?_) (List.cons_ne_nil c rest)
    rw [leading?] at h
    split at h <;> cases h

theorem byteCount_eq_utf8ByteSize (text : List Char) :
    byteCount text = (String.ofList text).utf8ByteSize := by
  induction text with
  | nil => rfl
  | cons c rest ih =>
    rw [String.ofList_cons, String.utf8ByteSize_append, String.utf8ByteSize_singleton, ← ih]
    rfl

theorem byteCount_cons (c : Char) (rest : List Char) :
    byteCount (c :: rest) = c.utf8Size + byteCount rest := rfl

theorem byteCount_append (front back : List Char) :
    byteCount (front ++ back) = byteCount front + byteCount back := by
  rw [byteCount_eq_utf8ByteSize, String.ofList_append, String.utf8ByteSize_append,
    ← byteCount_eq_utf8ByteSize, ← byteCount_eq_utf8ByteSize]

namespace Lexeme

variable {front back other text : List Char} {token : Token} {lexeme : Lexeme} {rest : List Lexeme}

/-- What follows on a run of name characters may be replaced by nothing, or by a text that begins
with the same token. -/
theorem head_not_isNameChar_of_leading?
    (h : ∀ c, (front ++ back).head? = some c → isNameChar c = false)
    (hother : other = [] ∨ Token.leading? other = Token.leading? back) :
    ∀ c, (front ++ other).head? = some c → isNameChar c = false := by
  cases front with
  | cons d front => exact h
  | nil =>
    intro c hc
    obtain ⟨rest, rfl⟩ := List.head?_eq_some_iff.mp hc
    have hsame := hother.resolve_left (List.cons_ne_nil c rest)
    cases back with
    | nil => exact absurd (Token.leading?_eq_none_iff.mp hsame) (List.cons_ne_nil c rest)
    | cons d back =>
      have hd := h d rfl
      by_contra hname
      rw [Bool.not_eq_false] at hname
      rw [Token.leading?, Token.leading?, if_pos hname, if_neg (Bool.eq_false_iff.mp hd)] at hsame
      cases hsame

/-- The leading token is the first one that is found, if it is not blank. -/
theorem exists_scan_of_leading? (h : Token.leading? text = some token) (hproper : token.IsProper)
    (offset : Nat) : ∃ rest, scan offset text = ⟨token, offset⟩ :: rest := by
  cases text with
  | nil => cases h
  | cons c rest =>
    rw [Token.leading?] at h
    split at h
    · next hname =>
      cases h
      have hblank : ¬ Text.isBlank c = true := fun hblank => by
        rw [isNameChar_of_isBlank hblank] at hname
        cases hname
      rw [scan, if_neg hblank, if_pos hname]
      exact ⟨_, rfl⟩
    · cases h
      exact ⟨_, scan_mark hproper offset rest⟩

/-- The text is cut in front of a lexeme. The tokens of its first part are those in front of that
lexeme, and stay the same if the second part is replaced by nothing, or by a text that begins with
the same token. -/
structure CutsAt (offset : Nat) (text : List Char) (done : List Lexeme) (lexeme : Lexeme)
    (front back : List Char) : Prop where
  text_eq : text = front ++ back
  offset_eq : lexeme.offset = offset + byteCount front
  leading : Token.leading? back = some lexeme.token
  scan_eq : ∀ other, other = [] ∨ Token.leading? other = Token.leading? back →
    scan offset (front ++ other) = done ++ scan (offset + byteCount front) other

section Cuts

variable {offset : Nat} {c : Char} {name : String} {done : List Lexeme}

/-- Nothing stands in front of the leading token. -/
theorem cutsAt_leading (h : Token.leading? text = some token) (offset : Nat) :
    CutsAt offset text [] ⟨token, offset⟩ [] text := ⟨rfl, rfl, h, fun _ _ => rfl⟩

theorem CutsAt.blank (h : CutsAt (offset + c.utf8Size) text done lexeme front back)
    (hblank : Text.isBlank c = true) : CutsAt offset (c :: text) done lexeme (c :: front) back where
  text_eq := congrArg (c :: ·) h.text_eq
  offset_eq := by rw [h.offset_eq, byteCount_cons, Nat.add_assoc]
  leading := h.leading
  scan_eq other hother := by
    rw [List.cons_append, scan, if_pos hblank, h.scan_eq other hother, byteCount_cons,
      Nat.add_assoc]

theorem CutsAt.mark (h : CutsAt (offset + c.utf8Size) text done lexeme front back)
    (hproper : (Token.mark c).IsProper) :
    CutsAt offset (c :: text) (⟨.mark c, offset⟩ :: done) lexeme (c :: front) back where
  text_eq := congrArg (c :: ·) h.text_eq
  offset_eq := by rw [h.offset_eq, byteCount_cons, Nat.add_assoc]
  leading := h.leading
  scan_eq other hother := by
    rw [List.cons_append, scan_mark hproper, h.scan_eq other hother, byteCount_cons, Nat.add_assoc,
      List.cons_append]

theorem CutsAt.word (h : CutsAt (offset + byteCount name.toList) text done lexeme front back)
    (hproper : (Token.word name).IsProper)
    (hend : ∀ c, text.head? = some c → isNameChar c = false) :
    CutsAt offset (name.toList ++ text) (⟨.word name, offset⟩ :: done) lexeme
      (name.toList ++ front) back where
  text_eq := by rw [List.append_assoc, ← h.text_eq]
  offset_eq := by rw [h.offset_eq, byteCount_append, Nat.add_assoc]
  leading := h.leading
  scan_eq other hother := by
    rw [h.text_eq] at hend
    rw [List.append_assoc, scan_word hproper (head_not_isNameChar_of_leading? hend hother),
      h.scan_eq other hother, byteCount_append, Nat.add_assoc, List.cons_append]

end Cuts

/-- A text can be cut in front of each of its tokens. -/
theorem exists_cutsAt (offset : Nat) (text : List Char) :
    ∀ {done : List Lexeme}, scan offset text = done ++ lexeme :: rest →
      ∃ front back, CutsAt offset text done lexeme front back := by
  fun_induction scan offset text
  case case1 =>
    intro done h
    exact absurd h.symm (List.append_ne_nil_of_right_ne_nil _ (List.cons_ne_nil _ _))
  case case2 offset c text hblank ih =>
    intro done h
    obtain ⟨front, back, hcut⟩ := ih h
    exact ⟨c :: front, back, hcut.blank hblank⟩
  case case3 offset c text hblank hname word ih =>
    intro done h
    cases done with
    | nil =>
      obtain ⟨rfl, -⟩ := List.cons.inj h
      exact ⟨[], c :: text, cutsAt_leading (by rw [Token.leading?, if_pos hname]) offset⟩
    | cons first done =>
      obtain ⟨rfl, hdone⟩ := List.cons.inj h
      obtain ⟨front, back, hcut⟩ := ih hdone
      have hend : ∀ d, (text.dropWhile isNameChar).head? = some d → isNameChar d = false := by
        intro d hd
        have hnot := List.head?_dropWhile_not isNameChar text
        rwa [hd] at hnot
      have htext : c :: text = (String.ofList word).toList ++ text.dropWhile isNameChar := by
        rw [String.toList_ofList, List.cons_append, List.takeWhile_append_dropWhile]
      rw [← String.toList_ofList (l := word)] at hcut
      exact ⟨_, back, htext ▸ hcut.word (Token.isProper_leadingWord hname text) hend⟩
  case case4 offset c text hblank hname ih =>
    intro done h
    cases done with
    | nil =>
      obtain ⟨rfl, -⟩ := List.cons.inj h
      exact ⟨[], c :: text, cutsAt_leading (by rw [Token.leading?, if_neg hname]) offset⟩
    | cons first done =>
      obtain ⟨rfl, hdone⟩ := List.cons.inj h
      obtain ⟨front, back, hcut⟩ := ih hdone
      exact ⟨c :: front, back,
        hcut.mark ⟨Bool.eq_false_iff.mpr hblank, Bool.eq_false_iff.mpr hname⟩⟩

end Lexeme

/-! ## What the reader has come through -/

/-- Tokens side by side, without blanks. -/
theorem Spells.flatMap_chars (tokens : List Token) :
    Spells (tokens.flatMap Token.chars) tokens := by
  induction tokens with
  | nil => exact .empty
  | cons token tokens ih => exact ih.token_cons token

namespace Reader

variable {enclosing : List OpenList} {type : TypeExpr} {reader : Reader} {error : ParseError}

/-- Behind a complete type, one bracket for each open list completes the expression. -/
theorem Completes.exists_closed (h : reader.Completes enclosing type) :
    ∃ reader' type', reader.steps (List.replicate enclosing.length (.mark '>')) = .ok reader' ∧
      reader'.finish = .ok type' := by
  induction enclosing generalizing reader type with
  | nil => exact ⟨reader, type, rfl, h.finish⟩
  | cons list outer ih =>
    have hclose : reader.step (.mark '>') =
        .ok (.behind outer (.named list.name (type :: list.args).reverse)) := h.step (by decide)
    obtain ⟨reader', type', hsteps, hfinish⟩ := ih (.inl rfl)
    refine ⟨reader', type', ?_, hfinish⟩
    rw [List.length_cons, List.replicate_succ, steps_cons_of_ok hclose, hsteps]

/-- Wherever the reader stands, a name or a bracket brings it behind a complete type, if it is not
there already. -/
theorem exists_completes (reader : Reader) :
    ∃ tokens reader' enclosing type, (∀ token ∈ tokens, token.IsProper) ∧
      reader.steps tokens = .ok reader' ∧ reader'.Completes enclosing type := by
  have hproper : ∀ token ∈ [Token.mark '>'], token.IsProper := by decide +kernel
  cases reader with
  | atType enclosing =>
    refine ⟨[.word "A"], .atName enclosing "A", enclosing, .named "A" [], by decide +kernel, ?_,
      .inr ⟨"A", rfl, rfl⟩⟩
    exact steps_cons_of_ok (TypeExpr.step_word (by decide +kernel) enclosing) []
  | atName enclosing name =>
    exact ⟨[], _, enclosing, .named name [], (fun _ h => nomatch h), rfl, .inr ⟨name, rfl, rfl⟩⟩
  | atBracket enclosing name => exact ⟨[.mark '>'], _, enclosing, _, hproper, rfl, .inl rfl⟩
  | atBlank enclosing name arity => exact ⟨[.mark '>'], _, enclosing, _, hproper, rfl, .inl rfl⟩
  | behind enclosing type => exact ⟨[], _, enclosing, type, (fun _ h => nomatch h), rfl, .inl rfl⟩

/-- Wherever the reader stands, an expression can still come of what it has read. -/
theorem exists_completion (reader : Reader) :
    ∃ tokens reader' type, (∀ token ∈ tokens, token.IsProper) ∧
      reader.steps tokens = .ok reader' ∧ reader'.finish = .ok type := by
  obtain ⟨tokens, middle, enclosing, type, hproper, hsteps, hcompletes⟩ := reader.exists_completes
  obtain ⟨reader', type', hclosed, hfinish⟩ := hcompletes.exists_closed
  refine ⟨tokens ++ List.replicate enclosing.length (.mark '>'), reader', type', ?_, ?_, hfinish⟩
  · refine List.forall_mem_append.mpr ⟨hproper, fun token htoken => ?_⟩
    rw [List.eq_of_mem_replicate htoken]
    decide +kernel
  · rw [steps_append_of_ok hsteps, hclosed]

/-- A fault is that of one token, and the tokens in front of it have been read. -/
theorem run_eq_error_iff {lexemes : List Lexeme} :
    reader.run lexemes = .error error ↔ ∃ done lexeme rest reader',
      lexemes = done ++ lexeme :: rest ∧ reader.run done = .ok reader' ∧
        reader'.step lexeme.token = .error error.fault ∧ lexeme.offset = error.offset := by
  constructor
  · intro h
    induction lexemes generalizing reader with
    | nil => cases h
    | cons lexeme lexemes ih =>
      rw [run, List.foldlM_cons] at h
      cases hstep : reader.step lexeme.token with
      | error fault =>
        rw [hstep] at h
        cases h
        exact ⟨[], lexeme, lexemes, reader, rfl, rfl, hstep, rfl⟩
      | ok next =>
        rw [hstep] at h
        obtain ⟨done, lexeme', rest, reader', rfl, hrun, hfault, hoffset⟩ := ih h
        refine ⟨lexeme :: done, lexeme', rest, reader', rfl, ?_, hfault, hoffset⟩
        rw [run, List.foldlM_cons, hstep]
        exact hrun
  · rintro ⟨done, lexeme, rest, reader', rfl, hrun, hfault, hoffset⟩
    rw [run] at hrun
    rw [run, List.foldlM_append, hrun]
    change reader'.run (lexeme :: rest) = .error error
    rw [run, List.foldlM_cons, hfault, hoffset]
    rfl

end Reader

namespace TypeExpr

variable {text : String} {error : ParseError}

/-- A text whose tokens have all been read is the beginning of a text that is an expression. -/
theorem exists_parse_append {reader : Reader}
    (h : Reader.start.run (Lexeme.scan 0 text.toList) = .ok reader) :
    ∃ (more : String) (type : TypeExpr), parse (text ++ more) = .ok type := by
  obtain ⟨hspells, hproper⟩ := Lexeme.spells_scan 0 text.toList
  obtain ⟨tokens, reader', type, hmore, hsteps, hfinish⟩ := reader.exists_completion
  have hstart : Reader.start.HasRead [] := ⟨trivial, rfl⟩
  have hread := (hstart.steps_sound hproper (Reader.run_eq_ok_iff.mp h)).steps_sound hmore hsteps
  obtain ⟨htokens, hfits⟩ := Reader.finish_sound hread hfinish
  refine ⟨String.ofList (tokens.flatMap Token.chars), type, parse_eq_ok_iff.mpr ⟨hfits, ?_⟩⟩
  rw [String.toList_append, String.toList_ofList, htokens, List.nil_append]
  exact hspells.append (.flatMap_chars tokens)

theorem parse_of_run_eq_error (h : Reader.start.run (Lexeme.scan 0 text.toList) = .error error) :
    parse text = .error error := by
  rw [parse, h]
  rfl

/-- The reader stops at a token, or at the end of the text. -/
theorem run_of_parse_eq_error (h : parse text = .error error) :
    Reader.start.run (Lexeme.scan 0 text.toList) = .error error ∨
      ∃ reader, Reader.start.run (Lexeme.scan 0 text.toList) = .ok reader ∧
        error.offset = text.utf8ByteSize := by
  unfold parse at h
  cases hrun : Reader.start.run (Lexeme.scan 0 text.toList) with
  | error fault =>
    rw [hrun] at h
    cases h
    exact .inl rfl
  | ok reader =>
    rw [hrun] at h
    refine .inr ⟨reader, rfl, ?_⟩
    change reader.finish.mapError _ = _ at h
    cases hfinish : reader.finish with
    | ok type =>
      rw [hfinish] at h
      cases h
    | error fault =>
      rw [hfinish] at h
      cases h
      rfl

/-- The text in front of a fault is the beginning of a text that is an expression. Every text that
goes on behind it with the same token, or ends there as well, has the same fault at the same
place. -/
theorem parse_error_exact (h : parse text = .error error) :
    ∃ front back : String, text = front ++ back ∧ front.utf8ByteSize = error.offset ∧
      (∃ (more : String) (type : TypeExpr), parse (front ++ more) = .ok type) ∧
      ∀ other : String, Token.leading? other.toList = Token.leading? back.toList →
        parse (front ++ other) = .error error := by
  rcases run_of_parse_eq_error h with hrun | ⟨reader, hrun, hoffset⟩
  · obtain ⟨done, lexeme, rest, reader, hscan, hdone, hfault, hoffset⟩ :=
      Reader.run_eq_error_iff.mp hrun
    obtain ⟨front, back, htext, hplace, hleading, hsplit⟩ := Lexeme.exists_cutsAt 0 _ hscan
    have hfront : Lexeme.scan 0 front = done := by
      simpa [Lexeme.scan] using hsplit [] (.inl rfl)
    have hproper : lexeme.token.IsProper :=
      (Lexeme.spells_scan 0 text.toList).2 _ (by simp [hscan])
    refine ⟨String.ofList front, String.ofList back, ?_, ?_, ?_, fun other hother => ?_⟩
    · rw [← String.ofList_append, ← htext, String.ofList_toList]
    · rw [← byteCount_eq_utf8ByteSize, ← hoffset, hplace, Nat.zero_add]
    · have hviable :
          Reader.start.run (Lexeme.scan 0 (String.ofList front).toList) = .ok reader := by
        rw [String.toList_ofList, hfront, hdone]
      exact exists_parse_append hviable
    · rw [String.toList_ofList] at hother
      have hnext := hother.trans hleading
      obtain ⟨rest', hrest'⟩ :=
        Lexeme.exists_scan_of_leading? hnext hproper (0 + byteCount front)
      apply parse_of_run_eq_error
      refine Reader.run_eq_error_iff.mpr ⟨done, lexeme, rest', reader, ?_, hdone, hfault, hoffset⟩
      rw [String.toList_append, String.toList_ofList, hsplit _ (.inr hother), hrest', ← hplace]
  · refine ⟨text, "", String.append_empty.symm, hoffset.symm, exists_parse_append hrun, ?_⟩
    intro other hother
    have hempty : other.toList = [] := Token.leading?_eq_none_iff.mp hother
    rw [String.toList_eq_nil_iff.mp hempty, String.append_empty, h]

/-- No bracket can stand behind the comma. The place counts two bytes for the first letter and three
for the blank. -/
theorem parse_missingArgument :
    parse "Á<\u3000B,>" = .error ⟨8, .nameExpected⟩ ∧
      ∃ front back : String, "Á<\u3000B,>" = front ++ back ∧ front.utf8ByteSize = 8 ∧
        ∃ (more : String) (type : TypeExpr), parse (front ++ more) = .ok type := by
  have hscan : Lexeme.scan 0 "Á<\u3000B,>".toList =
      [⟨.word "Á", 0⟩, ⟨.mark '<', 2⟩, ⟨.word "B", 6⟩, ⟨.mark ',', 7⟩, ⟨.mark '>', 8⟩] := by
    decide +kernel
  have hparse : parse "Á<\u3000B,>" = .error ⟨8, .nameExpected⟩ := by
    rw [parse, hscan]
    rfl
  obtain ⟨front, back, htext, hoffset, hviable, -⟩ := parse_error_exact hparse
  exact ⟨hparse, front, back, htext, hoffset, hviable⟩

end TypeExpr

end NominalTypes
