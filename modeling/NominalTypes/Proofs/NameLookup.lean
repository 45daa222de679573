import NominalTypes.Proofs.Atomicity
import NominalTypes.Proofs.Building.Registry

/-!
# What names denote

Which type a name denotes can be told from the descriptors and from the keywords that have been
registered, without the tables: a keyword comes first, then the declared type of the qualified name,
then the only declared type of the simple name.

- `Operation.keyword?`, `Store.keywordsAlong`: the keywords that a run registers.
- `Store.aliases_afterAll`: the table of keywords holds these and nothing else. None is ever lost.
- `Store.Means`: what a name denotes, as a relation.
- `Store.lookup_cases`: the courses that a lookup may take.
- `Store.Reachable.names_specified`: the main result.
-/

namespace NominalTypes

/-! ## Keywords -/

/-- The keyword that an operation registers and the type that it stands for, if the operation
registers one. -/
def Operation.keyword? (s : Store) : Operation → Option (String × TypeId)
  | .addAlias keyword type =>
    match (Store.addAlias keyword type s).1 with
    | .ok _ => some (keyword, type)
    | .error _ => none
  | _ => none

namespace Store

variable {s t : Store} {keywords : List (String × TypeId)} {name : String} {arity : Nat}
  {type : TypeId}

/-- The keywords that are registered in the course of a run, the first one first. -/
def keywordsAlong (s : Store) : List Operation → List (String × TypeId)
  | [] => []
  | operation :: operations =>
    (operation.keyword? s).toList ++ (operation.perform.after s).keywordsAlong operations

/-- An operation that fails registers no keyword. -/
theorem keyword?_of_error {operation : Operation} {error : StoreError}
    (hrun : operation.perform s = (.error error, t)) : operation.keyword? s = none := by
  cases operation with
  | addAlias keyword type =>
    dsimp only [Operation.keyword?]
    rw [show addAlias keyword type s = _ from hrun]
  | _ => rfl

theorem keyword?_of_ne {operation : Operation}
    (hother : ∀ keyword type, operation ≠ .addAlias keyword type) :
    operation.keyword? s = none := by
  cases operation with
  | addAlias keyword type => exact absurd rfl (hother keyword type)
  | _ => rfl

/-- An operation registers its keyword and keeps all others. -/
theorem aliases_after (hs : s.Coherent) (operation : Operation) (name : String) :
    (operation.perform.after s).aliases[name]? =
      (s.aliases[name]?).or ((operation.keyword? s).toList.lookup name) := by
  have hends := operation.perform_registers hs
  have hafter : operation.perform.after s = (operation.perform s).2 := rfl
  rcases hrun : operation.perform s with ⟨error | answer, t⟩
  · obtain ⟨-, haliases⟩ := hends.of_error hrun
    rw [hafter, hrun, keyword?_of_error hrun, haliases]
    exact Option.or_none.symm
  · rw [hafter, hrun]
    cases hends.of_ok hrun with
    | none hother _ haliases =>
      rw [keyword?_of_ne hother, haliases]
      exact Option.or_none.symm
    | declaration declares =>
      have haliases : t.aliases = s.aliases :=
        declares.naming.aliases.trans declares.unchanged.sameNaming.aliases
      rw [haliases]
      exact Option.or_none.symm
    -- the only case in which the table changes; the keyword was not in it
    | @keyword keyword type _ hnew haliases =>
      have hsome : (Operation.addAlias keyword type).keyword? s = some (keyword, type) := by
        dsimp only [Operation.keyword?]
        rw [show addAlias keyword type s = _ from hrun]
      rw [hsome, haliases, Std.ExtTreeMap.getElem?_insert, Option.toList_some]
      by_cases hname : name = keyword
      · subst hname
        rw [if_pos Std.ReflCmp.compare_self, hnew, List.lookup_cons_self, Option.none_or]
      · have hcompare : ¬ compare keyword name = .eq := fun heq =>
          hname (Std.LawfulEqCmp.eq_of_compare heq).symm
        rw [if_neg hcompare, List.lookup_cons, beq_false_of_ne hname, List.lookup_nil,
          Option.or_none]

/-- The table of keywords holds what has been registered, and the first registration counts. -/
theorem aliases_afterAll (hs : s.Coherent) (operations : List Operation) (name : String) :
    (s.afterAll operations).aliases[name]? =
      (s.aliases[name]?).or ((s.keywordsAlong operations).lookup name) := by
  induction operations generalizing s with
  | nil => exact Option.or_none.symm
  | cons operation operations ih =>
    have hstep := ih (operation.leaves_after hs).coherent
    rw [aliases_after hs operation, Option.or_assoc] at hstep
    rw [keywordsAlong, List.lookup_append]
    exact hstep

/-- A keyword is found as such. -/
theorem lookup_of_alias {keyword : String} (h : s.aliases[keyword]? = some type) :
    s.lookup keyword 0 = .ok type := by
  unfold lookup aliased?
  rw [if_pos rfl, h]

/-! ## The specification -/

/-- What a name denotes for some number of arguments, told by the descriptors and by the keywords
that have been registered. Keywords have no arguments. -/
inductive Means (s : Store) (keywords : List (String × TypeId)) (name : String) (arity : Nat) :
    TypeId → Prop
  | keyword {type : TypeId} (harity : arity = 0) (hkeyword : keywords.lookup name = some type) :
      Means s keywords name arity type
  | qualified {type : TypeId} (hkeyword : arity = 0 → keywords.lookup name = none)
      (hname : type ∈ s.declaredAs .full name arity) : Means s keywords name arity type
  | simple {type : TypeId} (hkeyword : arity = 0 → keywords.lookup name = none)
      (hqualified : s.declaredAs .full name arity = [])
      (hname : s.declaredAs .short name arity = [type]) : Means s keywords name arity type

/-- Lookup finds what names denote, and tells why it finds nothing. -/
structure NamesSpecified (s : Store) (keywords : List (String × TypeId)) : Prop where
  /-- Declared types differ in their qualified names or in their arities. -/
  distinct : ∀ {type other : TypeId} {d e : Descriptor}, s.get? type = some d →
    s.get? other = some e → d.origin.isDeclared = true → e.origin.isDeclared = true →
    d.qualifiedName = e.qualifiedName → d.arity = e.arity → type = other
  found_iff : ∀ (name : String) (arity : Nat) (type : TypeId),
    s.lookup name arity = .ok type ↔ s.Means keywords name arity type
  /-- The candidates are the declared types of the simple name, in the order of declaration. -/
  ambiguous_iff : ∀ (name : String) (arity : Nat) (candidates : List String),
    s.lookup name arity = .error (.ambiguousTypeName name candidates) ↔
      (arity = 0 → keywords.lookup name = none) ∧ s.declaredAs .full name arity = [] ∧
        2 ≤ (s.declaredAs .short name arity).length ∧
        candidates = (s.declaredAs .short name arity).map s.qualifiedName
  /-- Otherwise no type is declared under the name with this arity, and the error tells whether one
  is with another arity. -/
  missing : ∀ (name : String) (arity : Nat) (error : StoreError),
    s.lookup name arity = .error error →
      (∃ candidates, error = .ambiguousTypeName name candidates) ∨
      (error = .unknownTypeName name ∧ ∀ style other, s.declaredAs style name other = []) ∨
      ∃ expected, error = .arityMismatch name expected arity ∧ expected ≠ arity ∧
        ∃ style, s.declaredAs style name expected ≠ []

/-! ## The courses of a lookup -/

theorem aliased?_eq_none (hkeywords : ∀ name, s.aliases[name]? = keywords.lookup name)
    (h : arity = 0 → keywords.lookup name = none) : s.aliased? name arity = none := by
  unfold aliased?
  split
  · next harity => rw [hkeywords, h harity]
  · rfl

/-- With the keywords out of the way, a lookup goes on to qualified names and then to simple ones,
and both are as the descriptors tell. -/
theorem lookup_of_aliased?_eq_none (hs : s.Registered) (hwf : s.WellFormed)
    (hnone : s.aliased? name arity = none) :
    (∃ type ∈ s.declaredAs .full name arity, s.lookup name arity = .ok type) ∨
      (s.declaredAs .full name arity = [] ∧
        s.lookup name arity =
          if s.declaredAs .short name arity = [] then .error (s.absence name arity)
          else s.unambiguous name (s.declaredAs .short name arity)) := by
  unfold lookup
  rw [hnone]
  cases hqualified : s.qualifiedNames[(name, arity)]? with
  | some type => exact .inl ⟨type, hs.qualifiedNames name arity type hqualified, rfl⟩
  | none =>
    refine .inr ⟨List.eq_nil_iff_forall_not_mem.mpr fun type htype => ?_, ?_⟩
    · rw [hwf.names.qualifiedNames_of_mem htype] at hqualified
      cases hqualified
    · have hsimple := hs.simpleNames name arity
      cases hentry : s.simpleNames[(name, arity)]? with
      | none =>
        rw [hentry, Option.getD_none] at hsimple
        rw [← hsimple, if_pos rfl]
      | some types =>
        rw [hentry, Option.getD_some] at hsimple
        rw [← hsimple, if_neg (hwf.closed.simpleNames _ _ hentry).1]

/-- A lookup finds the type of a keyword, that of a qualified name, or the only one of a simple
name; or there are several, or none. -/
theorem lookup_cases (hs : s.Registered) (hwf : s.WellFormed)
    (hkeywords : ∀ name, s.aliases[name]? = keywords.lookup name) (name : String) (arity : Nat) :
    (∃ type, arity = 0 ∧ keywords.lookup name = some type ∧ s.lookup name arity = .ok type) ∨
    (arity = 0 → keywords.lookup name = none) ∧
      ((∃ type ∈ s.declaredAs .full name arity, s.lookup name arity = .ok type) ∨
      s.declaredAs .full name arity = [] ∧
        ((∃ type, s.declaredAs .short name arity = [type] ∧ s.lookup name arity = .ok type) ∨
        (2 ≤ (s.declaredAs .short name arity).length ∧ s.lookup name arity =
          .error (.ambiguousTypeName name ((s.declaredAs .short name arity).map s.qualifiedName))) ∨
        (s.declaredAs .short name arity = [] ∧
          s.lookup name arity = .error (s.absence name arity)))) := by
  cases haliased : s.aliased? name arity with
  | some type =>
    have hlookup : s.lookup name arity = .ok type := by
      unfold lookup
      rw [haliased]
    unfold aliased? at haliased
    split at haliased
    · next harity => exact .inl ⟨type, harity, (hkeywords name).symm.trans haliased, hlookup⟩
    · cases haliased
  | none =>
    refine .inr ⟨fun harity => ?_, ?_⟩
    · rw [← hkeywords, ← haliased, aliased?, if_pos harity]
    rcases lookup_of_aliased?_eq_none hs hwf haliased with hqualified | ⟨hnil, hlookup⟩
    · exact .inl hqualified
    refine .inr ⟨hnil, ?_⟩
    rw [hlookup]
    match s.declaredAs .short name arity with
    | [] => exact .inr (.inr ⟨rfl, if_pos rfl⟩)
    | [type] => exact .inl ⟨type, rfl, rfl⟩
    | first :: second :: others => exact .inr (.inl ⟨by simp, rfl⟩)

/-- The declared types of a name and arity have entries in the tables. -/
theorem Registered.otherArity?_isSome (hs : s.Registered) (hwf : s.WellFormed) {style : LabelStyle}
    {other : Nat} (htype : type ∈ s.declaredAs style name other) (hne : other ≠ arity) :
    (s.otherArity? name arity).isSome = true := by
  unfold otherArity?
  rw [Option.isSome_map, List.find?_isSome]
  refine ⟨(name, other), List.mem_append.mpr ?_, by simpa using hne⟩
  cases style with
  | short =>
    left
    rw [Std.ExtTreeMap.mem_keys, Std.ExtTreeMap.mem_iff_isSome_getElem?]
    cases hentry : s.simpleNames[(name, other)]? with
    | some types => rfl
    | none =>
      rw [← hs.simpleNames, hentry] at htype
      cases htype
  | full =>
    right
    rw [Std.ExtTreeMap.mem_keys, Std.ExtTreeMap.mem_iff_isSome_getElem?,
      hwf.names.qualifiedNames_of_mem htype]
    rfl

/-- Another arity under which a name is entered is one of a declared type. -/
theorem Registered.of_otherArity? (hs : s.Registered) (hwf : s.WellFormed) {expected : Nat}
    (h : s.otherArity? name arity = some expected) :
    expected ≠ arity ∧ ∃ style, s.declaredAs style name expected ≠ [] := by
  obtain ⟨⟨key, other⟩, hfind, rfl⟩ := Option.map_eq_some_iff.mp h
  have hkey := List.find?_some hfind
  simp only [Bool.and_eq_true, beq_iff_eq, bne_iff_ne] at hkey
  obtain ⟨rfl, hne⟩ := hkey
  refine ⟨hne, ?_⟩
  rcases List.mem_append.mp (List.mem_of_find?_eq_some hfind) with hsimple | hqualified
  · rw [Std.ExtTreeMap.mem_keys, Std.ExtTreeMap.mem_iff_isSome_getElem?] at hsimple
    obtain ⟨types, hentry⟩ := Option.isSome_iff_exists.mp hsimple
    refine ⟨.short, ?_⟩
    rw [← hs.simpleNames, hentry]
    exact (hwf.closed.simpleNames _ _ hentry).1
  · rw [Std.ExtTreeMap.mem_keys, Std.ExtTreeMap.mem_iff_isSome_getElem?] at hqualified
    obtain ⟨type, hentry⟩ := Option.isSome_iff_exists.mp hqualified
    exact ⟨.full, List.ne_nil_of_mem (hs.qualifiedNames key other type hentry)⟩

/-- Why a name denotes nothing, told by the descriptors. -/
theorem Registered.absence_cases (hs : s.Registered) (hwf : s.WellFormed)
    (hnil : ∀ style, s.declaredAs style name arity = []) :
    (s.absence name arity = .unknownTypeName name ∧
        ∀ style other, s.declaredAs style name other = []) ∨
      ∃ expected, s.absence name arity = .arityMismatch name expected arity ∧ expected ≠ arity ∧
        ∃ style, s.declaredAs style name expected ≠ [] := by
  unfold absence
  cases hother : s.otherArity? name arity with
  | some expected => exact .inr ⟨expected, rfl, hs.of_otherArity? hwf hother⟩
  | none =>
    refine .inl ⟨rfl, fun style other => List.eq_nil_iff_forall_not_mem.mpr fun type htype => ?_⟩
    by_cases heq : other = arity
    · rw [heq, hnil] at htype
      cases htype
    · have hsome := hs.otherArity?_isSome hwf htype heq
      rw [hother] at hsome
      cases hsome

/-- Only one declared type has a qualified name and arity. -/
theorem NamesFit.eq_of_mem (hs : s.NamesFit) {other : TypeId}
    (htype : type ∈ s.declaredAs .full name arity)
    (hother : other ∈ s.declaredAs .full name arity) :
    type = other := by
  have hqualified := hs.qualifiedNames_of_mem htype
  rw [hs.qualifiedNames_of_mem hother] at hqualified
  exact (Option.some.inj hqualified).symm

/-- Only a name with several candidates is ambiguous. -/
theorem absence_ne_ambiguousTypeName (s : Store) (name : String) (arity : Nat)
    (candidates : List String) :
    s.absence name arity ≠ .ambiguousTypeName name candidates := by
  unfold absence
  cases s.otherArity? name arity <;> exact StoreError.noConfusion

theorem unambiguous_of_length {types : List TypeId} (h : 2 ≤ types.length) :
    s.unambiguous name types = .error (.ambiguousTypeName name (types.map s.qualifiedName)) := by
  match types with
  | [] | [_] => simp at h
  | first :: second :: others => rfl

/-- Only a single candidate is found. -/
theorem unambiguous_eq_ok_iff {types : List TypeId} :
    s.unambiguous name types = .ok type ↔ types = [type] := by
  constructor
  · intro h
    unfold unambiguous at h
    split at h
    · exact congrArg (fun found => [found]) (Except.ok.inj h)
    · cases h
  · rintro rfl
    rfl

/-- What a name denotes is found. -/
theorem Means.lookup_eq (h : s.Means keywords name arity type) (hs : s.Registered)
    (hwf : s.WellFormed) (hkeywords : ∀ name, s.aliases[name]? = keywords.lookup name) :
    s.lookup name arity = .ok type := by
  cases h with
  | keyword harity hkeyword =>
    unfold lookup aliased?
    rw [if_pos harity, hkeywords, hkeyword]
  | qualified hkeyword hname =>
    unfold lookup
    rw [aliased?_eq_none hkeywords hkeyword, hwf.names.qualifiedNames_of_mem hname]
  | simple hkeyword hqualified hname =>
    rcases lookup_of_aliased?_eq_none hs hwf (aliased?_eq_none hkeywords hkeyword) with
      ⟨other, hother, -⟩ | ⟨-, hlookup⟩
    · rw [hqualified] at hother
      cases hother
    · rw [hlookup, hname]
      rfl

theorem Registered.namesSpecified (hs : s.Registered) (hwf : s.WellFormed)
    (hkeywords : ∀ name, s.aliases[name]? = keywords.lookup name) : s.NamesSpecified keywords where
  distinct hd he hdeclared hdeclared' hname harity :=
    hwf.names.eq_of_mem (mem_declaredAs.mpr ⟨_, hd, hdeclared, rfl, rfl⟩)
      (mem_declaredAs.mpr ⟨_, he, hdeclared', hname.symm, harity.symm⟩)
  found_iff name arity type := by
    refine ⟨fun hfound => ?_, fun hmeans => hmeans.lookup_eq hs hwf hkeywords⟩
    rcases lookup_cases hs hwf hkeywords name arity with ⟨_, harity, hkeyword, hlookup⟩ |
      ⟨hkeyword, ⟨_, hmem, hlookup⟩ | ⟨hnil, ⟨_, hone, hlookup⟩ | ⟨-, hlookup⟩ | ⟨-, hlookup⟩⟩⟩
    all_goals rw [hfound] at hlookup; cases hlookup
    · exact .keyword harity hkeyword
    · exact .qualified hkeyword hmem
    · exact .simple hkeyword hnil hone
  ambiguous_iff name arity candidates := by
    constructor
    · intro hambiguous
      rcases lookup_cases hs hwf hkeywords name arity with ⟨_, -, -, hlookup⟩ |
        ⟨hkeyword, ⟨_, -, hlookup⟩ | ⟨hnil, ⟨_, -, hlookup⟩ | ⟨hmany, hlookup⟩ | ⟨-, hlookup⟩⟩⟩
      all_goals rw [hambiguous] at hlookup
      · cases hlookup
      · cases hlookup
      · cases hlookup
      · cases hlookup
        exact ⟨hkeyword, hnil, hmany, rfl⟩
      · exact absurd (Except.error.inj hlookup).symm (s.absence_ne_ambiguousTypeName _ _ _)
    · rintro ⟨hkeyword, hnil, hmany, rfl⟩
      rcases lookup_of_aliased?_eq_none hs hwf (aliased?_eq_none hkeywords hkeyword) with
        ⟨other, hother, -⟩ | ⟨-, hlookup⟩
      · rw [hnil] at hother
        cases hother
      · rw [hlookup, if_neg (List.ne_nil_of_length_pos (Nat.lt_of_lt_of_le Nat.two_pos hmany)),
          unambiguous_of_length hmany]
  missing name arity error herror := by
    rcases lookup_cases hs hwf hkeywords name arity with ⟨_, -, -, hlookup⟩ |
      ⟨-, ⟨_, -, hlookup⟩ | ⟨hnil, ⟨_, -, hlookup⟩ | ⟨-, hlookup⟩ | ⟨hnone, hlookup⟩⟩⟩
    all_goals rw [herror] at hlookup; cases hlookup
    · exact .inl ⟨_, rfl⟩
    · refine .inr (hs.absence_cases hwf fun style => ?_)
      cases style with
      | short => exact hnone
      | full => exact hnil

/-! ## Reachable stores -/

/-- A reachable store comes from the empty one by a run. Whatever run that is, names denote what the
descriptors and the keywords registered in the run tell. A declaration that fails changes nothing
about them, and a keyword stands for its type for good. -/
theorem Reachable.names_specified (hs : s.Reachable) :
    (∃ operations, s = Store.empty.afterAll operations) ∧
    (∀ operations, s = Store.empty.afterAll operations →
      s.NamesSpecified (Store.empty.keywordsAlong operations)) ∧
    (∀ d order error t, declare d order s = (.error error, t) →
      t.lookup = s.lookup ∧ t.declaredAs = s.declaredAs) ∧
    ∀ keyword type t, addAlias keyword type s = (.ok (), t) →
      ∀ operations, (t.afterAll operations).lookup keyword 0 = .ok type := by
  refine ⟨hs.exists_run, fun operations hrun => ?_, fun d order error t hrun => ?_,
    fun keyword type t hrun operations => ?_⟩
  · refine hs.registered.namesSpecified hs.coherent.wellFormed fun name => ?_
    have haliases := aliases_afterAll coherent_empty operations name
    rw [← hrun] at haliases
    rw [haliases, show Store.empty.aliases = ∅ from rfl, Std.ExtTreeMap.getElem?_empty,
      Option.none_or]
  · have hunchanged : s.UnchangedButNames t := (declare_ends hs.coherent).of_error hrun
    rw [hunchanged.eq]
    exact ⟨rfl, rfl⟩
  · have hreachable : t.Reachable := by
      have hstep := Reachable.step (.addAlias keyword type) hs
      rwa [show (Operation.addAlias keyword type).perform.after s = t from
        congrArg Prod.snd hrun] at hstep
    obtain ⟨-, -, haliases⟩ := (addAlias_sameTables s keyword type).of_ok hrun
    have hkept := aliases_afterAll hreachable.coherent operations keyword
    rw [haliases, Std.ExtTreeMap.getElem?_insert_self, Option.some_or] at hkept
    exact lookup_of_alias hkept

/-- Two namespaces declare an `A`, a third one fails to, and the first one gets a keyword. -/
def namespaces : List Operation :=
  let declared (qualifier : String) : Declaration :=
    { Declaration.plain .interface "A" with qualifier := some qualifier }
  [.declare (declared "N"), .declare (declared "M"),
    .declare { declared "L" with interfaces := ["Missing"] }, .addAlias "a" 0]

/-- `A` is ambiguous between the two, while `M.A` and the keyword are not. -/
theorem lookup_namespaces :
    let s := Store.empty.afterAll namespaces
    s.lookup "A" 0 = .error (.ambiguousTypeName "A" ["N.A", "M.A"]) ∧
      s.lookup "M.A" 0 = .ok 1 ∧ s.lookup "a" 0 = .ok 0 := by
  have hspecified := (Reachable.empty.afterAll namespaces).names_specified.2.1 namespaces rfl
  refine ⟨?_, ?_, ?_⟩
  · exact (hspecified.ambiguous_iff "A" 0 _).mpr (by decide +kernel)
  · exact (hspecified.found_iff "M.A" 0 1).mpr (.qualified (by decide +kernel) (by decide +kernel))
  · exact (hspecified.found_iff "a" 0 0).mpr (.keyword rfl (by decide +kernel))

end Store

end NominalTypes
