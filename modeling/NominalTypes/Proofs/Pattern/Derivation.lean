import NominalTypes.Pattern.Match
import NominalTypes.Proofs.Hierarchy.Growth

/-!
# Matches as derivations

A successful match has a derivation: a rule for every kind of pattern, which hands the bindings on
to the patterns that follow. What is true of all matches is proved by induction on derivations, not
along the walk down the pattern, which ends differently for definitions.

- `Store.variableName?`: the name under which a pattern variable is bound.
- `Store.matchShape`, `Store.matchInto_eq`: one level of matching.
- `Store.Presents`: the arguments that are compared with those of a generic pattern.
- `Store.Matches`: derivations for candidates and patterns one by one.
- `Store.WellFormed.matches_of_matchInto`: every successful match has one.
- `Bindings.Binds`: what is bound stays bound (`Store.Matches.binds`), and consistent bindings agree
  on it (`Bindings.unique?_of_binds`).
-/

namespace NominalTypes

/-! ## What is bound -/

namespace Bindings

variable {α β : Type} [DecidableEq α]

/-- The value is among those that the variable is bound to. -/
def Binds (b : Bindings α β) (name : α) (value : β) : Prop :=
  ∃ values, b.get? name = some values ∧ value ∈ values

theorem binds_bind_self (b : Bindings α β) (name : α) (value : β) :
    (b.bind name value).Binds name value :=
  ⟨_, b.get?_bind_self name value, List.mem_append_right _ (List.mem_singleton.mpr rfl)⟩

/-- A new binding takes none away. -/
theorem Binds.bind {b : Bindings α β} {name : α} {value : β} (h : b.Binds name value) (other : α)
    (new : β) : (b.bind other new).Binds name value := by
  obtain ⟨values, hget, hmem⟩ := h
  by_cases heq : name = other
  · subst heq
    refine ⟨_, b.get?_bind_self name new, ?_⟩
    rw [hget]
    exact List.mem_append_left _ hmem
  · exact ⟨values, (b.get?_bind_of_ne heq new).trans hget, hmem⟩

variable [DecidableEq β]

/-- Consistent bindings have no other value for a variable than one it is bound to. -/
theorem unique?_of_binds {b : Bindings α β} (hb : b.isConsistent = true) {name : α} {value : β}
    (h : b.Binds name value) : b.unique? name = some value := by
  obtain ⟨values, hget, hmem⟩ := h
  have hname : name ∈ b.names := by
    obtain ⟨before, after, heq, -⟩ := List.lookup_eq_some_iff.mp hget
    rw [names, heq]
    exact List.mem_map_of_mem (List.mem_append_right _ List.mem_cons_self)
  have hsome := List.all_eq_true.mp hb name hname
  unfold unique? at hsome ⊢
  rw [hget] at hsome ⊢
  cases values with
  | nil => cases hmem
  | cons first rest =>
    dsimp only at hsome ⊢
    by_cases hall : rest.all (· == first) = true
    · rw [if_pos hall]
      rcases List.mem_cons.mp hmem with rfl | hrest
      · rfl
      · rw [eq_of_beq (List.all_eq_true.mp hall value hrest)]
    · rw [if_neg hall] at hsome
      cases hsome

end Bindings

theorem Shape.isOpenGeneric_nullableWrapper (definition : TypeId) (isOpen : Bool) :
    (nullableWrapper definition isOpen).isOpenGeneric = isOpen := by
  cases isOpen <;> rfl

namespace Store

variable {s : Store} {type candidate pattern : TypeId} {b b' b'' : Bindings String TypeId}

/-! ## Shapes -/

/-- The name under which a generic parameter is bound when it occurs in a pattern. -/
def variableName? (s : Store) (type : TypeId) : Option String :=
  (s.get? type).bind fun d => if d.isParameter then some d.name else none

theorem variableName?_of_get? {d : Descriptor} (hd : s.get? type = some d) :
    s.variableName? type = if d.isParameter then some d.name else none := by
  rw [variableName?, hd]
  rfl

/-- Exactly the generic parameters are variables. -/
theorem variableName?_isSome (s : Store) (type : TypeId) :
    (s.variableName? type).isSome = s.isParameter type := by
  unfold variableName? isParameter
  cases s.get? type with
  | none => rfl
  | some d =>
    show (if d.isParameter = true then some d.name else none).isSome = d.isParameter
    cases d.isParameter <;> rfl

theorem WellFormed.isParameter_of_isDefinition (hs : s.WellFormed) {d : Descriptor}
    (hd : s.get? type = some d) (hdefinition : d.isDefinition = true) :
    ∀ param ∈ d.arguments, s.isParameter param = true := by
  intro param hparam
  have ho := origin?_of_get? hd
  unfold Descriptor.isDefinition at hdefinition
  unfold Descriptor.arguments at hparam
  split at hdefinition
  · next params horigin =>
    rw [horigin] at ho hparam
    exact hs.isParameter_of_mem ho hparam
  · cases hdefinition

/-- A variable, a plain type, or a type with a definition: open if all its arguments are
parameters. -/
theorem WellFormed.shape_cases (hs : s.WellFormed) {shape : Shape} (h : s.shape type = .ok shape) :
    ∃ d, s.get? type = some d ∧
      ((∃ name, shape = .variable name ∧ s.variableName? type = some name) ∨
        (shape = .plain ∧ s.variableName? type = none ∧ s.definitionOf? type = none) ∨
        ∃ definition, s.variableName? type = none ∧ s.definitionOf? type = some definition ∧
          shape.definition? = some definition ∧
          (shape.isOpenGeneric = true → ∀ arg ∈ d.arguments, s.isParameter arg = true) ∧
          (s.roles.nullable = some definition ↔
            ∃ isOpen, shape = .nullableWrapper definition isOpen)) := by
  obtain ⟨d, hd, h⟩ := bind_eq_ok.mp h
  have hget := descriptor_eq_ok.mp hd
  refine ⟨d, hget, ?_⟩
  have hname := variableName?_of_get? hget
  by_cases hparameter : d.isParameter = true
  · rw [if_pos hparameter] at h hname
    cases h
    exact .inl ⟨d.name, rfl, hname⟩
  rw [if_neg hparameter] at hname h
  refine .inr ?_
  cases hdefinition : s.definitionOf? type with
  | none =>
    simp only [hdefinition] at h
    cases h
    exact .inl ⟨rfl, hname, rfl⟩
  | some definition =>
    refine .inr ⟨definition, hname, rfl, ?_⟩
    simp only [hdefinition] at h
    have hgeneric := hs.isParameter_of_isDefinition hget
    have hfacade : (!d.isDefinition && d.arguments.all s.isParameter) = true →
        ∀ arg ∈ d.arguments, s.isParameter arg = true := fun hall =>
      List.all_eq_true.mp (Bool.and_eq_true_iff.mp hall).2
    split at h
    · next hnullable =>
      cases h
      refine ⟨rfl, fun hopen => ?_, iff_of_true hnullable ⟨_, rfl⟩⟩
      rw [Shape.isOpenGeneric_nullableWrapper, Bool.or_eq_true] at hopen
      exact hopen.elim hgeneric hfacade
    next hnullable =>
    split at h
    · next hdefinition =>
      cases h
      exact ⟨rfl, fun _ => hgeneric hdefinition, iff_of_false hnullable (by simp)⟩
    split at h
    · next hall =>
      cases h
      exact ⟨rfl, fun _ => hfacade hall, iff_of_false hnullable (by simp)⟩
    · cases h
      exact ⟨rfl, fun h => (nomatch h), iff_of_false hnullable (by simp)⟩

/-! ## One level of matching -/

/-- Matches an argument of a pattern. It is older than the pattern, or a parameter of it. -/
def matchArgument (s : Store) (pattern arg inner : TypeId) (b : Bindings String TypeId) :
    MatchResult :=
  if inner < pattern then s.matchInto arg inner b else s.matchParameter arg inner b

/-- Pairs are matched in the same way if all their members are. -/
theorem matchPairs_congr {match1 match2 : TypeId → TypeId → Bindings String TypeId → MatchResult}
    {args : List TypeId} :
    ∀ {patterns : List TypeId} {b : Bindings String TypeId},
      (∀ arg ∈ args, ∀ pattern ∈ patterns, ∀ b, match1 arg pattern b = match2 arg pattern b) →
      matchPairs match1 args patterns b = matchPairs match2 args patterns b := by
  induction args with
  | nil =>
    intro patterns b _
    cases patterns <;> rfl
  | cons arg args ih =>
    intro patterns b h
    cases patterns with
    | nil => rfl
    | cons pattern patterns =>
      have hrest : ∀ b, matchPairs match1 args patterns b = matchPairs match2 args patterns b :=
        fun b => ih fun a ha p hp => h a (List.mem_cons_of_mem _ ha) p (List.mem_cons_of_mem _ hp)
      rw [matchPairs, matchPairs, h arg List.mem_cons_self pattern List.mem_cons_self b]
      simp only [hrest]

/-- How a candidate is matched by the nearest type that is built from a definition, among itself and
its supertypes. -/
def matchNearest (s : Store) (candidate pattern definition : TypeId) (p : Descriptor)
    (b : Bindings String TypeId) : MatchResult := do
  match ← s.nearestBuiltFrom candidate definition with
  | some found => do
    let f ← s.descriptor found
    matchPairs (s.matchArgument pattern) f.arguments p.arguments b
  | none => return (false, b)

theorem matchNearest_of_found {definition found : TypeId} {p f : Descriptor}
    (hfound : s.nearestBuiltFrom candidate definition = .ok (some found))
    (hf : s.get? found = some f) :
    s.matchNearest candidate pattern definition p b =
      matchPairs (s.matchArgument pattern) f.arguments p.arguments b := by
  rw [matchNearest, hfound]
  show (s.descriptor found >>= fun f =>
    matchPairs (s.matchArgument pattern) f.arguments p.arguments b) = _
  rw [descriptor_eq_ok.mpr hf]
  rfl

theorem matchNearest_of_none {definition : TypeId} {p : Descriptor}
    (hnone : s.nearestBuiltFrom candidate definition = .ok none) :
    s.matchNearest candidate pattern definition p b = .ok (false, b) := by
  rw [matchNearest, hnone]
  rfl

/-- How a candidate is matched against a pattern of some shape, by the arguments of both. -/
def matchShape (s : Store) (candidate pattern : TypeId) (d p : Descriptor)
    (b : Bindings String TypeId) : Shape → MatchResult
  | .variable name => .ok (true, b.bind name candidate)
  | .plain => (s.accepts pattern candidate).map fun accepted => (accepted, b)
  | .nullableWrapper definition _ =>
    if s.definitionOf? candidate = some definition then
      matchPairs (s.matchArgument pattern) d.arguments p.arguments b
    else if d.isValueType then
      match p.arguments with
      | [inner] => s.matchArgument pattern candidate inner b
      | _ => .ok (false, b)
    else .ok (false, b)
  | .definition definition | .facade definition | .instantiation definition =>
    s.matchNearest candidate pattern definition p b

/-- Known types are matched by the shape of the pattern. -/
theorem matchInto_eq {d p : Descriptor} {shape : Shape} (hd : s.get? candidate = some d)
    (hp : s.get? pattern = some p) (hshape : s.shape pattern = .ok shape) :
    s.matchInto candidate pattern b = s.matchShape candidate pattern d p b shape := by
  rw [matchInto, descriptor_eq_ok.mpr hd, descriptor_eq_ok.mpr hp, hshape]
  cases shape with
  | plain =>
    rw [matchShape]
    cases s.accepts pattern candidate <;> rfl
  | _ => rfl

/-! ## Arguments that a candidate presents -/

/-- The nullable wrapper around a value type is its nullable form. -/
theorem WellFormed.isNullableOf_of_arguments (hs : s.WellFormed) {d : Descriptor}
    {definition : TypeId} (hd : s.get? type = some d)
    (hdefinition : s.definitionOf? type = some definition)
    (hnullable : s.roles.nullable = some definition) (hargs : d.arguments = [candidate])
    (hvalue : s.kind? candidate = some .valueType) : s.isNullableOf d candidate = true := by
  have ho := origin?_of_get? hd
  rw [definitionOf?_eq_origin?, ho] at hdefinition
  unfold isNullableOf
  cases horigin : d.origin with
  | definition params =>
    -- the wrapper itself has a parameter in the place of the value type
    rw [Descriptor.arguments, horigin] at hargs
    rw [horigin, show params = [candidate] from hargs] at ho
    obtain ⟨position, hposition⟩ := hs.parameter_origin? ho List.mem_cons_self
    rw [hs.kind?_of_parameter_origin? hposition] at hvalue
    cases hvalue
  | instantiation generic inner isOpen =>
    rw [Descriptor.arguments, horigin] at hargs
    rw [horigin] at hdefinition
    cases hdefinition
    rw [hnullable, show inner = [candidate] from hargs]
    exact Bool.and_eq_true_iff.mpr ⟨beq_self_eq_true _, beq_self_eq_true _⟩
  | declared | typeParameter _ _ | methodParameter =>
    rw [horigin] at hdefinition
    cases hdefinition

/-- The arguments with which a candidate stands up to a pattern with some definition: those of the
nearest supertype that has the definition; and a value type stands up to the nullable wrapper, from
which nothing derives, with itself. -/
inductive Presents (s : Store) (candidate definition : TypeId) : List TypeId → Prop
  | supertype {found : TypeId} {f : Descriptor}
      (hfound : s.nearestBuiltFrom candidate definition = .ok (some found))
      (hnullable : s.roles.nullable = some definition → found = candidate)
      (hf : s.get? found = some f) : Presents s candidate definition f.arguments
  | lifted (hnullable : s.roles.nullable = some definition)
      (hvalue : s.kind? candidate = some .valueType)
      (hother : s.definitionOf? candidate ≠ some definition) :
      Presents s candidate definition [candidate]

namespace Presents

variable {definition : TypeId} {args : List TypeId}

theorem candidate_lt (h : s.Presents candidate definition args) : candidate < s.size := by
  cases h with
  | supertype hfound => exact (of_nearestBuiltFrom hfound).1
  | lifted _ hvalue => exact lt_of_kind? hvalue

/-- A type that has the definition itself presents its own arguments. -/
theorem eq_arguments (h : s.Presents candidate definition args) {c : Descriptor}
    (hc : s.get? candidate = some c) (hself : s.definitionOf? candidate = some definition) :
    args = c.arguments := by
  cases h with
  | supertype hfound _ hf =>
    rw [nearestBuiltFrom_self hc hself] at hfound
    cases hfound
    rw [hc] at hf
    cases hf
    rfl
  | lifted _ _ hother => exact absurd hself hother

/-- A candidate has only one way to stand up to a definition. -/
theorem unique (h : s.Presents candidate definition args) {args' : List TypeId}
    (h' : s.Presents candidate definition args') : args = args' := by
  -- the wrapper is found nowhere but at the candidate itself, which is then not lifted
  have hself : ∀ {found : TypeId},
      s.nearestBuiltFrom candidate definition = .ok (some found) →
      (s.roles.nullable = some definition → found = candidate) →
      s.roles.nullable = some definition → s.definitionOf? candidate = some definition := by
    intro found hfound heq hnullable
    exact heq hnullable ▸ (of_nearestBuiltFrom hfound).2.1
  cases h with
  | supertype hfound hnullable hf =>
    cases h' with
    | supertype hfound' _ hf' =>
      rw [hfound] at hfound'
      cases hfound'
      rw [hf] at hf'
      cases hf'
      rfl
    | lifted hwrapper _ hother => exact absurd (hself hfound hnullable hwrapper) hother
  | lifted hwrapper _ hother =>
    cases h' with
    | supertype hfound hnullable => exact absurd (hself hfound hnullable hwrapper) hother
    | lifted => rfl

/-- Candidates present the same arguments later on. -/
theorem later (h : s.Presents candidate definition args) (hs : s.WellFormed) {t : Store}
    (hst : s.Grows t) : t.Presents candidate definition args := by
  have hcandidate := h.candidate_lt
  cases h with
  | supertype hfound hnullable hf =>
    have hnearest := hst.keepsTypes.nearestBuiltFrom_eq hs hcandidate definition
    refine .supertype (hnearest.trans hfound) ?_ ((hst.get?_eq (lt_of_get? hf)).trans hf)
    rwa [hst.roles_eq]
  | lifted hnullable hvalue hother =>
    refine .lifted ?_ (hst.keepsOutlines.kind?_some hvalue) ?_
    · rwa [hst.roles_eq]
    · rwa [hst.keepsTypes.definitionOf?_eq hcandidate]

/-- The definition with the arguments that a candidate presents accepts the candidate. -/
theorem accepts (h : s.Presents candidate definition args) (hs : s.WellFormed) {d : Descriptor}
    (hd : s.get? type = some d) (hdefinition : s.definitionOf? type = some definition)
    (hargs : d.arguments = args) : s.accepts type candidate = .ok true := by
  cases h with
  | @supertype found f hfound _ hf =>
    have htree : s.tree type = s.tree found := by
      rw [hs.tree_generic hd hdefinition, hs.tree_generic hf (of_nearestBuiltFrom hfound).2.1,
        hargs]
    obtain rfl := hs.tree_injective (lt_of_get? hd) (lt_of_get? hf) htree
    exact hs.accepts_of_nearestBuiltFrom hfound
  | lifted hnullable hvalue =>
    have hform := hs.isNullableOf_of_arguments hd hdefinition hnullable hargs hvalue
    rw [accepts_eq hd (lt_of_kind? hvalue), if_pos (.inr (.inr hform))]

end Presents

/-! ## Derivations -/

/-- The candidates match the patterns one by one, and the bindings before become the bindings
after. -/
inductive Matches (s : Store) :
    List TypeId → List TypeId → Bindings String TypeId → Bindings String TypeId → Prop
  | nil {b : Bindings String TypeId} : Matches s [] [] b b
  /-- A variable takes any candidate. -/
  | binding {candidate pattern : TypeId} {candidates patterns : List TypeId} {name : String}
      {b b' : Bindings String TypeId} (known : candidate < s.size)
      (hname : s.variableName? pattern = some name)
      (others : Matches s candidates patterns (b.bind name candidate) b') :
      Matches s (candidate :: candidates) (pattern :: patterns) b b'
  /-- A plain type takes what may be stored where it is expected. -/
  | plain {candidate pattern : TypeId} {candidates patterns : List TypeId}
      {b b' : Bindings String TypeId} (hname : s.variableName? pattern = none)
      (hplain : s.definitionOf? pattern = none)
      (haccepts : s.accepts pattern candidate = .ok true)
      (others : Matches s candidates patterns b b') :
      Matches s (candidate :: candidates) (pattern :: patterns) b b'
  /-- The arguments of a generic type take those that the candidate presents. -/
  | generic {candidate pattern definition : TypeId} {candidates patterns args : List TypeId}
      {p : Descriptor} {b b' b'' : Bindings String TypeId} (hp : s.get? pattern = some p)
      (hdefinition : s.definitionOf? pattern = some definition)
      (hpresents : s.Presents candidate definition args)
      (arguments : Matches s args p.arguments b b')
      (others : Matches s candidates patterns b' b'') :
      Matches s (candidate :: candidates) (pattern :: patterns) b b''

theorem Matches.cons {candidates patterns : List TypeId}
    (first : s.Matches [candidate] [pattern] b b') (others : s.Matches candidates patterns b' b'') :
    s.Matches (candidate :: candidates) (pattern :: patterns) b b'' := by
  cases first with
  | binding known hname rest =>
    cases rest
    exact .binding known hname others
  | plain hname hplain haccepts rest =>
    cases rest
    exact .plain hname hplain haccepts others
  | generic hp hdefinition hpresents arguments rest =>
    cases rest
    exact .generic hp hdefinition hpresents arguments others

/-- What is bound before some matches is bound after them. -/
theorem Matches.binds {candidates patterns : List TypeId} (h : s.Matches candidates patterns b b')
    {name : String} {value : TypeId} (hb : b.Binds name value) : b'.Binds name value := by
  induction h with
  | nil => exact hb
  | binding _ _ _ ih => exact ih (hb.bind _ _)
  | plain _ _ _ _ ih => exact ih hb
  | generic _ _ _ _ _ ihArguments ih => exact ih (ihArguments hb)

/-! ## Matches have derivations -/

/-- Pairs of arguments that match one by one. -/
theorem matches_of_matchPairs {match1 : TypeId → TypeId → Bindings String TypeId → MatchResult} :
    ∀ {patterns candidates : List TypeId} {b b' : Bindings String TypeId},
      (∀ pattern candidate b b', match1 candidate pattern b = .ok (true, b') →
        s.Matches [candidate] [pattern] b b') →
      matchPairs match1 candidates patterns b = .ok (true, b') →
      s.Matches candidates patterns b b'
  | [], [], b, b', _, h => by
    cases h
    exact .nil
  | [], _ :: _, _, _, _, h => by cases h
  | _ :: _, [], _, _, _, h => by cases h
  | pattern :: patterns, candidate :: candidates, b, b', hmatch, h => by
    obtain ⟨⟨matched, b₁⟩, hfirst, hothers⟩ := bind_eq_ok.mp h
    cases matched with
    | false => cases hothers
    | true =>
      exact .cons (hmatch pattern candidate b b₁ hfirst) (matches_of_matchPairs hmatch hothers)

/-- A parameter of a definition is a variable. -/
theorem WellFormed.matches_of_matchParameter (hs : s.WellFormed) {param : TypeId}
    (h : s.matchParameter candidate param b = .ok (true, b')) :
    s.Matches [candidate] [param] b b' := by
  obtain ⟨d, hd, h⟩ := bind_eq_ok.mp h
  obtain ⟨shape, hshape, h⟩ := bind_eq_ok.mp h
  obtain ⟨e, -, ⟨name, rfl, hname⟩ | hother⟩ := hs.shape_cases hshape
  · cases h
    exact .binding (lt_of_get? (descriptor_eq_ok.mp hd)) hname .nil
  · split at h
    · next name =>
      obtain ⟨hplain, -⟩ | ⟨definition, -, -, hgeneric, -⟩ := hother
      · cases hplain
      · cases hgeneric
    · cases h

/-- Every successful match has a derivation. -/
theorem WellFormed.matches_of_matchInto (hs : s.WellFormed)
    (h : s.matchInto candidate pattern b = .ok (true, b')) :
    s.Matches [candidate] [pattern] b b' := by
  induction pattern using Nat.strongRecOn generalizing candidate b b' with
  | ind pattern ih =>
    rw [matchInto] at h
    obtain ⟨d, hd, h⟩ := bind_eq_ok.mp h
    obtain ⟨shape, hshape, h⟩ := bind_eq_ok.mp h
    obtain ⟨p, hp, h⟩ := bind_eq_ok.mp h
    have hget := descriptor_eq_ok.mp hd
    have hgetp := descriptor_eq_ok.mp hp
    -- arguments that are not older than the pattern are parameters, and the walk ends there
    have hmatch : ∀ inner arg b b',
        (if inner < pattern then s.matchInto arg inner b else s.matchParameter arg inner b) =
          .ok (true, b') → s.Matches [arg] [inner] b b' := by
      intro inner arg b b' h
      split at h
      · next hlt => exact ih inner hlt h
      · exact hs.matches_of_matchParameter h
    -- one case for each rule of derivations
    obtain ⟨e, -, ⟨name, rfl, hname⟩ | ⟨rfl, hname, hplain⟩ |
      ⟨definition, hname, hdefinition, hgeneric, -, hnullable⟩⟩ := hs.shape_cases hshape
    · cases h
      exact .binding (lt_of_get? hget) hname .nil
    · obtain ⟨accepted, haccepts, h⟩ := bind_eq_ok.mp h
      cases h
      exact .plain hname hplain haccepts .nil
    cases shape
    case definition | facade | instantiation =>
      cases hgeneric
      obtain ⟨_ | found, hfound, h⟩ := bind_eq_ok.mp h
      · cases h
      obtain ⟨f, hf, h⟩ := bind_eq_ok.mp h
      have hpresents : s.Presents candidate definition f.arguments :=
        .supertype hfound (fun hrole => nomatch hnullable.mp hrole) (descriptor_eq_ok.mp hf)
      exact .generic hgetp hdefinition hpresents (matches_of_matchPairs hmatch h) .nil
    case nullableWrapper =>
      cases hgeneric
      have hrole := hnullable.mpr ⟨_, rfl⟩
      dsimp only at h
      split at h
      · next hself =>
        have hpresents : s.Presents candidate definition d.arguments :=
          .supertype (nearestBuiltFrom_self hget hself) (fun _ => rfl) hget
        exact .generic hgetp hdefinition hpresents (matches_of_matchPairs hmatch h) .nil
      next hother =>
      split at h
      · next hvalue =>
        have hkind : s.kind? candidate = some .valueType := by
          rw [kind?_of_get? hget, eq_of_beq hvalue]
        split at h
        · next inner hinner =>
          have hlift := hmatch inner candidate b b' h
          rw [← hinner] at hlift
          exact .generic hgetp hdefinition (.lifted hrole hkind hother) hlift .nil
        · cases h
      · cases h
    all_goals cases hgeneric

end Store

end NominalTypes
