import NominalTypes.Proofs.History
import NominalTypes.Proofs.Pattern.Reading
import NominalTypes.Proofs.Substitution
import NominalTypes.Proofs.TypeExpr.Grammar

/-!
# Renaming the variables of a pattern

The same candidates match a pattern before and after its variables have been renamed, and the same
types are captured at each place. But bindings tell variables apart by their names alone. A pattern
may contain parameters that are not its variables: a generic definition with blanks brings in its
own ones, and so may a keyword. If one of them has the name of a variable, then what they capture is
bound under one name, and a renaming of the variable separates it. Nor can every pattern be read
under other names, for the limit on instantiations depends on what has been built before.

- `Store.Hygienic`: what a renaming changes about a match, and what it does not.
- `Store.SamePattern.hygienic`: patterns of the same structure.
- `Store.Reachable.readPattern_hygienic`: the main result.
- `Store.not_hygienic`: a variable with the name of another parameter, and a reading that fails.
-/

namespace NominalTypes

namespace Store

variable {b s t u : Store} {vars : List String} {r : String → String}

/-! ## Bindings side by side -/

section Named

variable {own foreign : List String}

/-- Names that are renamed one to one, and do not run into foreign ones, stay different. -/
theorem injOn_renamed (hinj : ∀ name ∈ own, ∀ other ∈ own, r name = r other → name = other)
    (hclear : ∀ name ∈ foreign, name ∉ own ∧ name ∉ own.map r) :
    Set.InjOn (renamed own r) {name | name ∈ own ∨ name ∈ foreign} := by
  have hforeign : ∀ name ∈ foreign, renamed own r name = name := fun name hname =>
    if_neg (hclear name hname).1
  have hown : ∀ name ∈ own, renamed own r name = r name := fun name hname => if_pos hname
  have happart : ∀ name ∈ own, ∀ other ∈ foreign, r name ≠ other := by
    rintro name hname _ hother rfl
    exact (hclear _ hother).2 (List.mem_map_of_mem hname)
  rintro name (hname | hname) other (hother | hother) heq
  · rw [hown name hname, hown other hother] at heq
    exact hinj name hname other hother heq
  · rw [hown name hname, hforeign other hother] at heq
    exact absurd heq (happart name hname other hother)
  · rw [hforeign name hname, hown other hother] at heq
    exact absurd heq.symm (happart other hother name hname)
  · rwa [hforeign name hname, hforeign other hother] at heq

/-- Captures that are alike are the same ones under other names, if no foreign name is that of a
variable. -/
theorem CapturesAlike.eq_map {entries entries' : List (String × TypeId)}
    (h : CapturesAlike (Named own foreign r) entries entries')
    (hclear : ∀ name ∈ foreign, name ∉ own) :
    entries' = entries.map (fun entry => (renamed own r entry.1, entry.2)) ∧
      ∀ entry ∈ entries, entry.1 ∈ {name | name ∈ own ∨ name ∈ foreign} := by
  induction h with
  | nil => exact ⟨rfl, fun _ hentry => (List.not_mem_nil hentry).elim⟩
  | @cons entry entry' entries entries' hfirst _ ih =>
    obtain ⟨hmap, hdomain⟩ := ih
    obtain ⟨hnamed, hvalue⟩ := hfirst
    obtain ⟨hname, hmem⟩ : entry'.1 = renamed own r entry.1 ∧
        (entry.1 ∈ own ∨ entry.1 ∈ foreign) := by
      rcases hnamed with ⟨hown, heq⟩ | ⟨hforeign, heq⟩
      · exact ⟨by rw [heq, renamed, if_pos hown], .inl hown⟩
      · exact ⟨by rw [heq, renamed, if_neg (hclear _ hforeign)], .inr hforeign⟩
    refine ⟨?_, List.forall_mem_cons.mpr ⟨hmem, hdomain⟩⟩
    rw [List.map_cons, ← hmap, ← hname, ← hvalue]

/-- Bindings of captures that are alike are the same ones under other names, if no foreign name is
that of a variable. -/
theorem CapturesAlike.bindAll_eq {entries entries' : List (String × TypeId)}
    (h : CapturesAlike (Named own foreign r) entries entries')
    (hinj : ∀ name ∈ own, ∀ other ∈ own, r name = r other → name = other)
    (hclear : ∀ name ∈ foreign, name ∉ own ∧ name ∉ own.map r) :
    let bound := (Bindings.empty : Bindings String TypeId).bindAll entries
    Bindings.empty.bindAll entries' = bound.rename (renamed own r) ∧
      (∀ name ∈ own, (bound.rename (renamed own r)).get? (r name) = bound.get? name) ∧
      (bound.rename (renamed own r)).isConsistent = bound.isConsistent := by
  intro bound
  have hf := injOn_renamed hinj hclear
  obtain ⟨rfl, hdomain⟩ := h.eq_map fun name hname => (hclear name hname).1
  have hempty : ∀ name ∈ (Bindings.empty : Bindings String TypeId).names,
      name ∈ {name | name ∈ own ∨ name ∈ foreign} := fun _ hname => (List.not_mem_nil hname).elim
  have hnames := Bindings.mem_of_mem_names_bindAll hempty hdomain
  refine ⟨Bindings.bindAll_rename hf hempty hdomain, fun name hname => ?_,
    Bindings.isConsistent_rename hf hnames⟩
  have hget := Bindings.get?_rename hf hnames (show name ∈ _ from .inl hname)
  rwa [renamed, if_pos hname] at hget

end Named

/-- The same candidate is matched against a pattern of the store `s` and against the renamed pattern
of the store `t`. The variables that occur in the pattern are its own names; the other parameters
that it contains have foreign names. -/
structure Hygienic (s : Store) (pattern : TypeId) (t : Store) (pattern' : TypeId)
    (own foreign : List String) (r : String → String) (candidate : TypeId) : Prop where
  outcome : ∃ found found', s.matchBindings candidate pattern = .ok found ∧
    t.matchBindings candidate pattern' = .ok found' ∧ found'.isSome = found.isSome
  /-- What is captured at each place is the same, under the new name of the variable or under the
  foreign name. -/
  captured : ∃ matched entries entries',
    (∀ b, s.matchInto candidate pattern b = .ok (matched, b.bindAll entries)) ∧
    (∀ b, t.matchInto candidate pattern' b = .ok (matched, b.bindAll entries')) ∧
    CapturesAlike (Named own foreign r) entries entries'
  /-- If no foreign name is that of a variable, neither before nor after the renaming, then the
  bindings are renamed, and neither what is bound to a variable nor whether it agrees changes. -/
  bindings : (∀ name ∈ foreign, name ∉ own ∧ name ∉ own.map r) →
    ∃ found, s.matchBindings candidate pattern = .ok found ∧
      t.matchBindings candidate pattern' = .ok (found.map (Bindings.rename (renamed own r))) ∧
      ∀ b ∈ found, (∀ name ∈ own, (b.rename (renamed own r)).get? (r name) = b.get? name) ∧
        (b.rename (renamed own r)).isConsistent = b.isConsistent

/-- Patterns of the same structure are hygienic, if their variables are renamed one to one. -/
theorem SamePattern.hygienic {pattern pattern' : TypeId} {own foreign : List String}
    (h : b.SamePattern (Named own foreign r) pattern s pattern' t) (hb : b.WellFormed)
    (hinj : ∀ name ∈ own, ∀ other ∈ own, r name = r other → name = other) {candidate : TypeId}
    (hcandidate : candidate < b.size) :
    s.Hygienic pattern t pattern' own foreign r candidate := by
  have hleft := Nat.lt_of_lt_of_le hcandidate h.fromLeft.size_le
  have hright := Nat.lt_of_lt_of_le hcandidate h.fromRight.size_le
  have hinto := h.left.matchInto_eq_captures hleft h.alike.left_lt
  have hinto' := h.right.matchInto_eq_captures hright h.alike.right_lt
  have hfresh := h.left.matchBindings_eq_captures hleft h.alike.left_lt
  have hfresh' := h.right.matchBindings_eq_captures hright h.alike.right_lt
  have hresults := hb.captures_related h.fromLeft h.fromRight hcandidate h.alike.trees
  revert hinto hinto' hfresh hfresh' hresults
  rcases s.captures (s.tree pattern) candidate with ⟨matched, entries⟩
  rcases t.captures (t.tree pattern') candidate with ⟨matched', entries'⟩
  rintro hinto hinto' hfresh hfresh' ⟨houtcome, hmatches⟩
  dsimp only at hfresh hfresh' houtcome hmatches
  subst houtcome
  refine ⟨⟨_, _, hfresh, hfresh', ?_⟩, ⟨_, _, _, hinto, hinto', hmatches⟩, fun hclear => ?_⟩
  · cases matched' <;> rfl
  -- both matches start from no bindings, and so what they bind is what they capture
  · obtain ⟨hrename, hsame⟩ := hmatches.bindAll_eq hinj hclear
    refine ⟨_, hfresh, hfresh'.trans ?_, fun b hbound => ?_⟩
    · cases matched' with
      | false => rfl
      | true => exact congrArg (fun b => Except.ok (some b)) hrename
    · cases matched' with
      | false => cases hbound
      | true =>
        cases hbound
        exact hsame

/-! ## The main result -/

/-- If a pattern can be read, then so can its text with the variables renamed one to one to names
that the text does not contain otherwise, unless an instantiation fails at the limit. All types that
were known before match both patterns alike. The second text may be read in the same store as the
first one, or later. -/
theorem Reachable.readPattern_hygienic (hb : b.Reachable) (hu : u.Reachable) (hbu : b.FindsSame u)
    {text text' : String} {expr : TypeExpr} (hrenaming : Renaming vars r expr text text')
    {pattern : TypeId} (hread : readPattern text vars b = (.ok pattern, s)) :
    (∃ pattern' t, readPattern text' (vars.map r) u = (.ok pattern', t) ∧
      ∀ candidate, candidate < b.size → s.Hygienic pattern t pattern' (expr.occurring vars)
        (b.foreignNames vars expr) r candidate) ∨
    ∃ name, (readPattern text' (vars.map r) u).1 = .error (.instantiationTooDeep name) := by
  rcases hb.readPattern_related hu hbu hrenaming pattern s hread with
    ⟨pattern', t, hread', hsame⟩ | ⟨error, v, hread', name, rfl⟩
  · refine .inl ⟨pattern', t, hread', fun candidate hcandidate => ?_⟩
    refine hsame.hygienic hb.coherent.wellFormed (fun name hname other hother => ?_) hcandidate
    exact hrenaming.injective name (TypeExpr.mem_occurring.mp hname).1 other
      (TypeExpr.mem_occurring.mp hother).1
  · exact .inr ⟨name, by rw [hread']⟩

/-! ## Where names show -/

/-- A pattern for pairs, with a name at the first place and any pair at the second one:
`Pair<name, Pair<,>>`. -/
def pairPattern (name : String) : TypeExpr := .named "Pair" [.named name [], .blanks "Pair" 2]

theorem parse_pairPattern {name : String} (hname : IsTypeName name) :
    TypeExpr.parse (pairPattern name).render = .ok (pairPattern name) := by
  have hpair : IsTypeName "Pair" := by decide +kernel
  refine TypeExpr.parse_eq_ok_iff.mpr ⟨TypeExpr.fitsAt_named_iff.mpr ⟨hpair, by decide, ?_⟩,
    TypeExpr.spells_render _⟩
  refine List.forall_mem_cons.mpr ⟨?_, List.forall_mem_singleton.mpr ?_⟩
  · exact TypeExpr.fitsAt_named_iff.mpr ⟨hname, by decide, fun _ h => (List.not_mem_nil h).elim⟩
  · exact TypeExpr.fitsAt_blanks_iff.mpr ⟨hpair, by decide, by decide⟩

/-- The name is the only one without arguments, so it may be renamed to any other name. -/
theorem renaming_pairPattern (name name' : String) (hname : IsTypeName name)
    (hname' : IsTypeName name') : Renaming [name] (fun _ => name') (pairPattern name)
      (pairPattern name).render (pairPattern name').render where
  before := parse_pairPattern hname
  after := by
    rw [parse_pairPattern hname']
    simp [pairPattern, TypeExpr.rename, TypeExpr.renameAll, renamed]
  injective := fun first hfirst second hsecond _ =>
    (List.mem_singleton.mp hfirst).trans (List.mem_singleton.mp hsecond).symm
  fresh := fun other hword hother => by
    have heq : other = name := by
      simpa [pairPattern, TypeExpr.atoms, TypeExpr.atomsAll] using hword
    exact absurd (List.mem_singleton.mpr heq) hother

/-- With blanks, the definition of pairs brings in its own parameters. -/
theorem foreignNames_pairPattern {name : String} (hname : name ∈ vars) :
    pairs.foreignNames vars (pairPattern name) = ["K", "V"] := by
  have hdefinition : pairs.origin? 0 = some (.definition [1, 2]) := by decide +kernel
  have hlookup : pairs.lookup "Pair" 2 = .ok 0 := by decide +kernel
  have hvariables : pairs.variablesIn (pairs.tree 0) = ["K", "V"] := by
    rw [variablesIn, leaves_definition hdefinition]
    decide +kernel
  simp [foreignNames, pairPattern, TypeExpr.atoms, TypeExpr.atomsAll, hname, parameterNames,
    hlookup, hvariables]

/-- The store after `Pair<X, Pair<,>>` has been read. -/
def pairsRead : Store := (readPattern (pairPattern "X").render ["X"]).after pairs

theorem reachable_pairsRead : pairsRead.Reachable := by
  have hstep := Reachable.step (.readPattern (pairPattern "X").render ["X"]) reachable_pairs
  rwa [Operation.perform, Build.after_dropped] at hstep

/-- The type `Pair<A, Pair<A, A>>` matches `Pair<X, Pair<,>>`, and so it matches `Pair<Z, Pair<,>>`
with `Z` bound in the place of `X`. The parameters `K` and `V` of the definition keep their
names. -/
theorem matchBindings_pairPattern : ∃ pattern t,
    readPattern (pairPattern "Z").render ["Z"] pairsRead = (.ok pattern, t) ∧
      t.matchBindings 5 pattern = .ok (some ⟨[("Z", [3]), ("K", [3]), ("V", [3])]⟩) := by
  have hread : readPattern (pairPattern "X").render ["X"] pairs = (.ok 10, pairsRead) :=
    Prod.ext (by decide +kernel) rfl
  have hread' : (readPattern (pairPattern "Z").render ["Z"] pairsRead).1 = .ok 12 := by
    decide +kernel
  obtain ⟨pattern, t, hrun, hhygienic⟩ | ⟨name, hlimit⟩ :=
    reachable_pairs.readPattern_hygienic reachable_pairsRead
      (reachable_pairs.findsSame_readPattern _ _)
      (renaming_pairPattern "X" "Z" (by decide +kernel) (by decide +kernel)) hread
  swap
  · have herror := hlimit.symm.trans hread'
    cases herror
  have hclear : ∀ name ∈ pairs.foreignNames ["X"] (pairPattern "X"),
      name ∉ (pairPattern "X").occurring ["X"] ∧
        name ∉ ((pairPattern "X").occurring ["X"]).map fun _ => "Z" := by
    rw [foreignNames_pairPattern List.mem_cons_self]
    decide
  obtain ⟨found, hfound, hfound', -⟩ := (hhygienic 5 (by decide +kernel)).bindings hclear
  have hmatch : pairsRead.matchBindings 5 10 =
      .ok (some ⟨[("X", [3]), ("K", [3]), ("V", [3])]⟩) := by decide +kernel
  rw [hmatch] at hfound
  cases hfound
  exact ⟨pattern, t, hrun, hfound'⟩

/-- The turning interface, with fifty types that have been built for a variable `T`. -/
def halfTurned : Store :=
  turning.afterAll [.readPattern "R<T,T,T,T,Y,Y,T,T,T,T,Y,T,T,T,T,T,T,T,T,Y>" ["T"]]

/-- In `Pair<K, Pair<,>>` the variable `K` has the name of a parameter that the blanks bring in, and
their bindings are one entry. In `Pair<X, Pair<,>>` they are two. And once some types have been
built for the variable `T`, a pattern can be read with it which cannot be read with the variable
`U`, because all these types would have to be built for `U` too. -/
theorem not_hygienic :
    (¬ ∀ (b s t : Store) (text text' : String) (expr : TypeExpr) (vars : List String)
      (r : String → String) (pattern pattern' candidate : TypeId) (found : Bindings String TypeId),
      b.Reachable → Renaming vars r expr text text' →
      readPattern text vars b = (.ok pattern, s) →
      readPattern text' (vars.map r) b = (.ok pattern', t) → candidate < b.size →
      s.matchBindings candidate pattern = .ok (some found) →
      t.matchBindings candidate pattern' = .ok (some (found.rename (renamed vars r)))) ∧
    halfTurned.Reachable ∧
    (readPattern "R<T,T,T,T,T,Y,Y,T,T,T,T,Y,T,T,T,T,T,T,T,T>" ["T"] halfTurned).1 = .ok 124 ∧
    (readPattern "R<U,U,U,U,U,Y,Y,U,U,U,U,Y,U,U,U,U,U,U,U,U>" ["U"] halfTurned).1 =
      .error (.instantiationTooDeep (turning.display 0)) := by
  refine ⟨fun hhygienic => ?_, Reachable.afterAll (.step _ (.step _ (.step _ .empty))) _, ?_⟩
  · have hread : readPattern (pairPattern "K").render ["K"] pairs =
        (.ok 11, (readPattern (pairPattern "K").render ["K"]).after pairs) :=
      Prod.ext (by decide +kernel) rfl
    have hread' : readPattern (pairPattern "X").render ["X"] pairs = (.ok 10, pairsRead) :=
      Prod.ext (by decide +kernel) rfl
    have hmatch := hhygienic pairs _ pairsRead _ _ _ ["K"] (fun _ => "X") 11 10 5
      ⟨[("K", [3, 3]), ("V", [3])]⟩ reachable_pairs
      (renaming_pairPattern "K" "X" (by decide +kernel) (by decide +kernel)) hread hread'
      (by decide +kernel) (by decide +kernel)
    have hseparate : pairsRead.matchBindings 5 10 =
        .ok (some ⟨[("X", [3]), ("K", [3]), ("V", [3])]⟩) := by decide +kernel
    rw [hseparate] at hmatch
    revert hmatch
    decide
  · decide +kernel

end Store

end NominalTypes
