import NominalTypes.Proofs.Acyclicity
import NominalTypes.Proofs.Hierarchy.Completeness
import NominalTypes.Proofs.Totality

/-!
# Patterns without parameters

A pattern without parameters binds nothing, so matching it is a question that is answered yes or no.
Matching looks at one supertype only, the nearest one that has the definition of the pattern, while
assignability looks at all of them. The two agree where there is only one.

- `Store.IsGround`: no generic parameter is part of the type.
- `Store.WellFormed.bindsNothing_matchInto`, `Store.WellFormed.matchInto_self`: ground patterns bind
  nothing and match themselves.
- `Store.nearestBuiltFrom_eq_of_unique`, `Store.BaseAbove.eq_of_head_eq`: where there is one
  supertype with the definition.
- `Store.Reachable.matchBindings_of_isGround`: the main result.
- `Store.not_matched_of_accepted`: a class with two interfaces of one definition.
-/

namespace NominalTypes.Store

variable {s : Store} {type other candidate pattern definition : TypeId} {distance : Nat}
  {b : Bindings String TypeId}

/-! ## Ground types -/

/-- No generic parameter is part of the type. -/
def IsGround (s : Store) (type : TypeId) : Prop :=
  ∀ leaf ∈ (s.tree type).leaves, s.isParameter leaf = false

/-- The ground types are those that are not flagged as open. -/
theorem WellFormed.isGround_iff (hs : s.WellFormed) (htype : type < s.size) :
    s.IsGround type ↔ s.isOpen type = false := by
  rw [← Bool.not_eq_true, hs.isOpen_iff htype]
  simp [IsGround]

namespace IsGround

theorem isParameter_eq (h : s.IsGround type) (hs : s.WellFormed) : s.isParameter type = false := by
  by_contra htrue
  have hparameter : s.isParameter type = true := by simpa using htrue
  have hleaf := h type (by simp [hs.tree_parameter hparameter, TypeTree.leaves])
  rw [hparameter] at hleaf
  cases hleaf

/-- The arguments of a ground type are ground. -/
theorem argument (h : s.IsGround type) (hs : s.WellFormed) {d : Descriptor}
    (hd : s.get? type = some d) (hdefinition : s.definitionOf? type = some definition) :
    ∀ arg ∈ d.arguments, s.IsGround arg := by
  intro arg harg leaf hleaf
  refine h leaf ?_
  rw [hs.tree_generic hd hdefinition, TypeTree.leaves]
  exact List.mem_flatMap.mpr ⟨s.tree arg, List.mem_map_of_mem harg, hleaf⟩

/-- A ground generic type is an instantiation, for a definition has parameters. So its arguments are
older than itself, and there are some. -/
theorem of_definitionOf? (h : s.IsGround type) (hs : s.WellFormed) {d : Descriptor}
    (hd : s.get? type = some d) (hdefinition : s.definitionOf? type = some definition) :
    d.arguments ≠ [] ∧ ∀ arg ∈ d.arguments, arg < type := by
  have ho := origin?_of_get? hd
  cases horigin : d.origin with
  | declared | typeParameter _ _ | methodParameter =>
    rw [horigin] at ho
    rw [definitionOf?_eq_origin?, ho] at hdefinition
    cases hdefinition
  | definition params =>
    rw [horigin] at ho
    obtain ⟨param, hparam⟩ := List.exists_mem_of_ne_nil params (hs.definition ho).1
    have hground := h.argument hs hd hdefinition param (by rwa [Descriptor.arguments, horigin])
    have hparameter := hground.isParameter_eq hs
    rw [hs.isParameter_of_mem ho hparam] at hparameter
    cases hparameter
  | instantiation generic args isOpen =>
    rw [horigin] at ho
    obtain ⟨_, -, hsound⟩ := hs.instantiation ho
    obtain ⟨params, hparams, hlength, -⟩ := hsound.parameters
    rw [Descriptor.arguments, horigin]
    refine ⟨fun hnil => (hs.definition hparams).1 ?_, fun arg harg => (hs.args_known ho harg).1⟩
    rw [← List.length_eq_zero_iff, hlength, show args = [] from hnil, List.length_nil]

/-- A ground pattern is plain, a nullable wrapper, or an instantiation. -/
theorem shape_cases (h : s.IsGround type) (hs : s.WellFormed) {shape : Shape}
    (hshape : s.shape type = .ok shape) :
    (shape = .plain ∧ s.definitionOf? type = none) ∨
      ∃ definition, s.definitionOf? type = some definition ∧
        ((s.roles.nullable = some definition ∧ shape = .nullableWrapper definition false) ∨
          (s.roles.nullable ≠ some definition ∧ shape = .instantiation definition)) := by
  obtain ⟨d, hd, ⟨name, -, hname⟩ | ⟨hplain, -, hnone⟩ |
    ⟨definition, -, hdefinition, hgeneric, hopen, hnullable⟩⟩ := hs.shape_cases hshape
  · have hparameter := h.isParameter_eq hs
    rw [← variableName?_isSome, hname] at hparameter
    cases hparameter
  · exact .inl ⟨hplain, hnone⟩
  refine .inr ⟨definition, hdefinition, ?_⟩
  -- an open shape would have parameters for arguments
  have hclosed : shape.isOpenGeneric ≠ true := fun hshape => by
    obtain ⟨arg, harg⟩ := List.exists_mem_of_ne_nil _ (h.of_definitionOf? hs hd hdefinition).1
    have hparameter := (h.argument hs hd hdefinition arg harg).isParameter_eq hs
    rw [hopen hshape arg harg] at hparameter
    cases hparameter
  cases shape
  case nullableWrapper wrapper isOpen =>
    cases hgeneric
    cases isOpen
    · exact .inl ⟨hnullable.mpr ⟨_, rfl⟩, rfl⟩
    · exact absurd rfl hclosed
  case instantiation generic =>
    cases hgeneric
    exact .inr ⟨fun hrole => (nomatch hnullable.mp hrole), rfl⟩
  case definition | facade => exact absurd rfl hclosed
  all_goals cases hgeneric

/-- A ground generic type that is not nullable has the shape of an instantiation. -/
theorem shape_eq (h : s.IsGround type) (hs : s.WellFormed)
    (hdefinition : s.definitionOf? type = some definition)
    (hnullable : s.roles.nullable ≠ some definition) :
    s.shape type = .ok (.instantiation definition) := by
  obtain ⟨shape, hshape⟩ := answered_shape (lt_of_definitionOf? hdefinition)
  obtain ⟨-, hplain⟩ | ⟨definition', hdefinition', hcases⟩ := h.shape_cases hs hshape
  · rw [hdefinition] at hplain
    cases hplain
  · rw [hdefinition] at hdefinition'
    cases hdefinition'
    obtain ⟨hrole, -⟩ | ⟨-, rfl⟩ := hcases
    · exact absurd hrole hnullable
    · exact hshape

end IsGround

/-! ## Matching without bindings -/

/-- The match has the same answer whatever has been bound, and binds nothing itself. -/
def BindsNothing (match1 : Bindings String TypeId → MatchResult) : Prop :=
  ∃ matched, ∀ b, match1 b = .ok (matched, b)

/-- Pairs that bind nothing match if each of them does. -/
theorem matchPairs_of_bindsNothing
    {match1 : TypeId → TypeId → Bindings String TypeId → MatchResult} {args : List TypeId} :
    ∀ {patterns : List TypeId},
      (∀ arg ∈ args, ∀ pattern ∈ patterns, BindsNothing (match1 arg pattern)) →
      BindsNothing (matchPairs match1 args patterns) ∧
        ∀ b, matchPairs match1 args patterns b = .ok (true, b) ↔
          List.Forall₂ (fun arg pattern => match1 arg pattern b = .ok (true, b)) args patterns := by
  induction args with
  | nil =>
    intro patterns _
    cases patterns with
    | nil => exact ⟨⟨true, fun b => rfl⟩, fun b => iff_of_true rfl .nil⟩
    | cons => exact ⟨⟨false, fun b => rfl⟩, fun b => iff_of_false nofun nofun⟩
  | cons arg args ih =>
    intro patterns h
    cases patterns with
    | nil => exact ⟨⟨false, fun b => rfl⟩, fun b => iff_of_false nofun nofun⟩
    | cons pattern patterns =>
      obtain ⟨matched, hfirst⟩ := h arg List.mem_cons_self pattern List.mem_cons_self
      obtain ⟨⟨rest, hrest⟩, hiff⟩ := ih fun a ha p hp =>
        h a (List.mem_cons_of_mem _ ha) p (List.mem_cons_of_mem _ hp)
      have hstep : ∀ b, matchPairs match1 (arg :: args) (pattern :: patterns) b =
          if matched then matchPairs match1 args patterns b else .ok (false, b) := fun b => by
        rw [matchPairs, hfirst b]
        rfl
      refine ⟨⟨matched && rest, fun b => ?_⟩, fun b => ?_⟩
      · rw [hstep, hrest]
        cases matched <;> rfl
      · rw [hstep, List.forall₂_cons, hfirst b]
        cases matched with
        | false => simp
        | true => simp [hiff b]

theorem matchArgument_of_lt {inner arg : TypeId} (h : inner < pattern) :
    s.matchArgument pattern arg inner = s.matchInto arg inner := by
  funext b
  rw [matchArgument, if_pos h]

theorem IsGround.matchPairs_eq (h : s.IsGround pattern) (hs : s.WellFormed) {p : Descriptor}
    (hp : s.get? pattern = some p) (hdefinition : s.definitionOf? pattern = some definition)
    (args : List TypeId) :
    matchPairs (s.matchArgument pattern) args p.arguments =
      matchPairs s.matchInto args p.arguments :=
  funext fun b => matchPairs_congr fun arg _ inner hinner b => by
    rw [matchArgument_of_lt ((h.of_definitionOf? hs hp hdefinition).2 inner hinner)]

/-- A nullable wrapper binds nothing if its arguments do not. -/
theorem bindsNothing_nullableWrapper {d p : Descriptor}
    (hpairs : BindsNothing (matchPairs (s.matchArgument pattern) d.arguments p.arguments))
    (hlift : ∀ inner ∈ p.arguments, BindsNothing (s.matchArgument pattern candidate inner))
    (definition : TypeId) (isOpen : Bool) :
    BindsNothing fun b => s.matchShape candidate pattern d p b
      (.nullableWrapper definition isOpen) := by
  unfold matchShape
  by_cases hself : s.definitionOf? candidate = some definition
  · simpa only [if_pos hself] using hpairs
  by_cases hvalue : d.isValueType = true
  · simp only [if_neg hself, if_pos hvalue]
    split
    · next inner hinner => exact hlift inner (hinner ▸ List.mem_singleton_self inner)
    · exact ⟨false, fun b => rfl⟩
  · simp only [if_neg hself, if_neg hvalue]
    exact ⟨false, fun b => rfl⟩

namespace WellFormed

/-- So it is with the comparison with the nearest supertype. -/
theorem bindsNothing_matchNearest (hs : s.WellFormed) (hcandidate : candidate < s.size)
    {p : Descriptor}
    (hpairs : ∀ {found : TypeId} {f : Descriptor}, s.get? found = some f →
      BindsNothing (matchPairs (s.matchArgument pattern) f.arguments p.arguments))
    (definition : TypeId) : BindsNothing (s.matchNearest candidate pattern definition p) := by
  obtain ⟨_ | found, hfound⟩ := hs.answered_nearestBuiltFrom hcandidate definition
  · exact ⟨false, fun b => matchNearest_of_none hfound⟩
  · obtain ⟨f, hf⟩ := exists_get?_of_nearestBuiltFrom hfound
    obtain ⟨matched, hmatched⟩ := hpairs hf
    exact ⟨matched, fun b => (matchNearest_of_found hfound hf).trans (hmatched b)⟩

/-- Ground patterns bind nothing. -/
theorem bindsNothing_matchInto (hs : s.WellFormed) (hpattern : pattern < s.size)
    (hground : s.IsGround pattern) (hcandidate : candidate < s.size) :
    BindsNothing (s.matchInto candidate pattern) := by
  induction pattern using Nat.strongRecOn generalizing candidate with
  | ind pattern ih =>
    obtain ⟨d, hd⟩ := exists_get? hcandidate
    obtain ⟨p, hp⟩ := exists_get? hpattern
    obtain ⟨shape, hshape⟩ := answered_shape hpattern
    have heq : s.matchInto candidate pattern = fun b =>
        s.matchShape candidate pattern d p b shape := funext fun b => matchInto_eq hd hp hshape
    rw [heq]
    obtain ⟨rfl, -⟩ | ⟨definition, hdefinition, hcases⟩ := hground.shape_cases hs hshape
    · obtain ⟨accepted, haccepts⟩ := hs.answered_accepts hpattern hcandidate
      refine ⟨accepted, fun b => ?_⟩
      unfold matchShape
      rw [haccepts]
      rfl
    -- the arguments are older than the pattern, and ground as well
    have hargument : ∀ arg, arg < s.size → ∀ inner ∈ p.arguments,
        BindsNothing (s.matchArgument pattern arg inner) := by
      intro arg harg inner hinner
      have hlt := (hground.of_definitionOf? hs hp hdefinition).2 inner hinner
      rw [matchArgument_of_lt hlt]
      exact ih inner hlt (hs.arguments_lt hp inner hinner)
        (hground.argument hs hp hdefinition inner hinner) harg
    have hpairs : ∀ {found : TypeId} {f : Descriptor}, s.get? found = some f →
        BindsNothing (matchPairs (s.matchArgument pattern) f.arguments p.arguments) := fun hf =>
      (matchPairs_of_bindsNothing fun arg harg => hargument arg (hs.arguments_lt hf arg harg)).1
    obtain ⟨-, rfl⟩ | ⟨-, rfl⟩ := hcases
    · exact bindsNothing_nullableWrapper (hpairs hd) (hargument candidate hcandidate) _ _
    · exact hs.bindsNothing_matchNearest hcandidate hpairs definition

/-- The arguments of a ground pattern take others if they take them pair by pair. -/
theorem matchPairs_iff_of_isGround (hs : s.WellFormed) {p f : Descriptor} {found : TypeId}
    (hp : s.get? pattern = some p) (hground : s.IsGround pattern)
    (hdefinition : s.definitionOf? pattern = some definition) (hf : s.get? found = some f) :
    matchPairs (s.matchArgument pattern) f.arguments p.arguments b = .ok (true, b) ↔
      List.Forall₂ (fun arg inner => s.matchInto arg inner b = .ok (true, b)) f.arguments
        p.arguments := by
  rw [hground.matchPairs_eq hs hp hdefinition]
  refine (matchPairs_of_bindsNothing fun arg harg inner hinner => ?_).2 b
  exact hs.bindsNothing_matchInto (hs.arguments_lt hp inner hinner)
    (hground.argument hs hp hdefinition inner hinner) (hs.arguments_lt hf arg harg)

/-- A ground instantiation that is not a nullable type takes a candidate if its arguments take those
of the nearest supertype with the definition. -/
theorem matchInto_iff_of_nearest (hs : s.WellFormed) {p : Descriptor} (hp : s.get? pattern = some p)
    (hground : s.IsGround pattern) (hdefinition : s.definitionOf? pattern = some definition)
    (hnullable : s.roles.nullable ≠ some definition) (hcandidate : candidate < s.size) :
    s.matchInto candidate pattern b = .ok (true, b) ↔
      ∃ found f, s.nearestBuiltFrom candidate definition = .ok (some found) ∧
        s.get? found = some f ∧
        List.Forall₂ (fun arg inner => s.matchInto arg inner b = .ok (true, b)) f.arguments
          p.arguments := by
  obtain ⟨d, hd⟩ := exists_get? hcandidate
  rw [matchInto_eq hd hp (hground.shape_eq hs hdefinition hnullable), matchShape]
  obtain ⟨_ | found, hfound⟩ := hs.answered_nearestBuiltFrom hcandidate definition
  · rw [matchNearest_of_none hfound, hfound]
    exact iff_of_false (by simp) (by simp)
  obtain ⟨f, hf⟩ := exists_get?_of_nearestBuiltFrom hfound
  rw [matchNearest_of_found hfound hf, hs.matchPairs_iff_of_isGround hp hground hdefinition hf]
  constructor
  · exact fun h => ⟨found, f, hfound, hf, h⟩
  · rintro ⟨found', f', hfound', hf', h⟩
    rw [hfound] at hfound'
    cases hfound'
    rw [hf] at hf'
    cases hf'
    exact h

/-- A ground type matches itself. -/
theorem matchInto_self (hs : s.WellFormed) (htype : type < s.size) (hground : s.IsGround type) :
    s.matchInto type type b = .ok (true, b) := by
  induction type using Nat.strongRecOn with
  | ind type ih =>
    obtain ⟨d, hd⟩ := exists_get? htype
    obtain ⟨shape, hshape⟩ := answered_shape htype
    rw [matchInto_eq hd hd hshape]
    obtain ⟨rfl, -⟩ | ⟨definition, hdefinition, hcases⟩ := hground.shape_cases hs hshape
    · unfold matchShape
      rw [accepts_self htype]
      rfl
    have hpairs : matchPairs (s.matchArgument type) d.arguments d.arguments b = .ok (true, b) := by
      refine (hs.matchPairs_iff_of_isGround hd hground hdefinition hd).mpr ?_
      refine List.forall₂_same.mpr fun arg harg => ?_
      exact ih arg ((hground.of_definitionOf? hs hd hdefinition).2 arg harg)
        (hs.arguments_lt hd arg harg) (hground.argument hs hd hdefinition arg harg)
    obtain ⟨-, rfl⟩ | ⟨-, rfl⟩ := hcases
    · unfold matchShape
      dsimp only
      rw [if_pos hdefinition, hpairs]
    · exact (matchNearest_of_found (nearestBuiltFrom_self hd hdefinition) hd).trans hpairs

end WellFormed

/-! ## Which supertype is the nearest -/

/-- The only supertype with a definition is the nearest one. -/
theorem nearestBuiltFrom_eq_of_unique {a : Ancestry} (ha : s.ancestry candidate = .ok a)
    (hcandidate : candidate < s.size) (hmem : type ∈ a.types)
    (hdefinition : s.definitionOf? type = some definition)
    (hunique : ∀ other ∈ a.types, s.definitionOf? other = some definition → other = type) :
    s.nearestBuiltFrom candidate definition = .ok (some type) := by
  obtain ⟨d, hd⟩ := exists_get? hcandidate
  by_cases hself : s.definitionOf? candidate = some definition
  · rw [nearestBuiltFrom_self hd hself, hunique candidate (mem_types_self ha) hself]
  have hfind : (a.types.find? fun ancestor => s.definitionOf? ancestor == some definition) =
      some type := by
    cases hfirst : a.types.find? fun ancestor => s.definitionOf? ancestor == some definition with
    | none => exact absurd (beq_iff_eq.mpr hdefinition) (List.find?_eq_none.mp hfirst type hmem)
    | some first =>
      have hbuilt := List.find?_some hfirst
      rw [beq_iff_eq] at hbuilt
      rw [hunique first (List.mem_of_find?_eq_some hfirst) hbuilt]
  rw [nearestBuiltFrom, descriptor_eq_ok.mpr hd, ha]
  refine (if_neg hself).trans ?_
  exact congrArg Except.ok hfind

theorem BaseAbove.head_le (h : s.BaseAbove type distance other) (hs : s.Coherent) :
    s.head other ≤ s.head type := by
  induction h with
  | self => exact Nat.le_refl _
  | step _ hd hbase ih => exact Nat.le_trans ((DirectSupertype.of_base hd hbase).head_le hs) ih

/-- Along a path of base types a declared type does not come up twice, unless it names itself. -/
theorem BaseAbove.eq_of_head_eq (h : s.BaseAbove type distance other) (hs : s.Coherent)
    (htype : type < s.size) (hself : s.namesItself (s.head type) = false)
    (heq : s.head other = s.head type) : other = type := by
  cases distance with
  | zero =>
    cases h
    rfl
  | succ distance =>
    obtain ⟨d, hd⟩ := exists_get? htype
    obtain ⟨base, hbase, hpath⟩ := h.head hd
    have hstep := DirectSupertype.of_base hd hbase
    have hsame : s.head base = s.head type :=
      Nat.le_antisymm (hstep.head_le hs) (heq ▸ hpath.head_le hs)
    rw [hstep.namesItself hs hsame] at hself
    cases hself

/-- Above a type there is one type at most that is built from a definition which is no interface and
does not name itself. -/
theorem eq_of_above (hs : s.Coherent) (hcandidate : candidate < s.size) {distance' : Nat}
    (hpath : s.Above candidate distance type) (hpath' : s.Above candidate distance' other)
    (hdefinition : s.definitionOf? type = some definition)
    (hdefinition' : s.definitionOf? other = some definition)
    (hclass : s.isInterface type = false) (hself : s.namesItself definition = false) :
    other = type := by
  have hwf := hs.wellFormed
  have hhead := head_of_definitionOf? hdefinition
  have hhead' := head_of_definitionOf? hdefinition'
  have htype := hpath.lt_size hwf hcandidate
  have hother := hpath'.lt_size hwf hcandidate
  have hclass' : s.isInterface other = false := by
    rw [Bool.eq_false_iff, ne_eq, isInterface_iff] at hclass ⊢
    rwa [← hwf.kind?_head hother, hhead', ← hhead, hwf.kind?_head htype]
  have hbase := hpath.baseAbove hwf hclass
  have hbase' := hpath'.baseAbove hwf hclass'
  -- both are on the base chain, so one is above the other
  rcases Nat.le_total distance distance' with hle | hle
  · obtain ⟨rest, rfl⟩ := Nat.exists_eq_add_of_le hle
    exact (hbase.between hbase').eq_of_head_eq hs htype (by rw [hhead, hself])
      (by rw [hhead, hhead'])
  · obtain ⟨rest, rfl⟩ := Nat.exists_eq_add_of_le hle
    exact ((hbase'.between hbase).eq_of_head_eq hs hother (by rw [hhead', hself])
      (by rw [hhead, hhead'])).symm

/-! ## Assignable candidates -/

/-- What may be stored where a ground instantiation is expected has it in its ancestry, if this was
not cut short. Interfaces are looked for nowhere else. -/
theorem WellFormed.mem_types_of_accepts (hs : s.WellFormed) (hground : s.IsGround pattern)
    (hdefinition : s.definitionOf? pattern = some definition)
    (hnullable : s.roles.nullable ≠ some definition)
    (haccepts : s.accepts pattern candidate = .ok true) {a : Ancestry}
    (ha : s.ancestry candidate = .ok a)
    (hreach : s.isInterface pattern = true ∨ a.size < maxAncestrySize) : pattern ∈ a.types := by
  obtain ⟨hpattern, hcandidate⟩ := lt_of_accepts haccepts
  obtain ⟨p, hp⟩ := exists_get? hpattern
  rw [accepts_eq hp hcandidate] at haccepts
  by_cases hspecial :
      pattern = candidate ∨ s.isRoot pattern = true ∨ s.isNullableOf p candidate = true
  · rcases hspecial with rfl | hroot | hform
    · exact mem_types_self ha
    · -- the universal root is not generic
      have ho := (hs.roles.root pattern (eq_of_beq hroot)).2
      rw [definitionOf?_eq_origin?, ho] at hdefinition
      cases hdefinition
    · -- the wrapper is the only definition of nullable types
      have ho := origin?_of_get? hp
      unfold isNullableOf at hform
      split at hform
      · next generic args isOpen horigin =>
        rw [definitionOf?_eq_origin?, ho, horigin] at hdefinition
        cases hdefinition
        exact absurd (eq_of_beq (Bool.and_eq_true_iff.mp hform).1) hnullable
      · cases hform
  rw [if_neg hspecial] at haccepts
  by_cases hinterface : p.isInterface = true
  · rw [if_pos hinterface, ha] at haccepts
    exact Ancestry.mem_of_contains (Except.ok.inj haccepts)
  · rw [if_neg hinterface] at haccepts
    obtain ⟨chain, hchain⟩ := hs.answered_baseChain hcandidate
    rw [hchain] at haccepts
    have hmem := List.contains_iff_mem.mp (Except.ok.inj haccepts)
    have hfew : a.size < maxAncestrySize := hreach.resolve_left fun htrue => hinterface (by
      rwa [isInterface, hp] at htrue)
    obtain ⟨distance, hdistance, hpath⟩ := exists_baseAbove_of_mem hchain hmem
    obtain ⟨entry, hentry, rfl, -⟩ := exists_member_of_above ha hfew hpath.above hdistance
    exact List.mem_map_of_mem hentry

/-! ## Matching and assignability -/

/-- The candidate matches the pattern, and nothing is bound. -/
def MatchesUnbound (s : Store) (candidate pattern : TypeId) : Prop :=
  s.matchBindings candidate pattern = .ok (some .empty)

theorem matchesUnbound_iff :
    s.MatchesUnbound candidate pattern ↔
      s.matchInto candidate pattern .empty = .ok (true, .empty) := by
  constructor
  · intro h
    obtain ⟨⟨matched, b⟩, hinto, hok⟩ := bind_eq_ok.mp h
    cases matched with
    | false => cases hok
    | true =>
      cases hok
      exact hinto
  · intro h
    exact bind_eq_ok.mpr ⟨(true, .empty), h, rfl⟩

/-- What becomes of a candidate and a pattern depends on the nearest type with the definition of the
pattern, among the candidate and its supertypes, and on nothing else. -/
structure DecidedByNearest (s : Store) (candidate pattern definition : TypeId)
    (nearest : Option TypeId) : Prop where
  nearest_eq : s.nearestBuiltFrom candidate definition = .ok nearest
  unbound_or_none : s.MatchesUnbound candidate pattern ∨
    s.matchBindings candidate pattern = .ok none
  matches_iff : s.MatchesUnbound candidate pattern ↔ ∃ found f p, nearest = some found ∧
    s.get? found = some f ∧ s.get? pattern = some p ∧
    List.Forall₂ s.MatchesUnbound f.arguments p.arguments
  matches_of_eq : nearest = some pattern → s.MatchesUnbound candidate pattern
  matchBindings_eq : ∀ other, s.nearestBuiltFrom other definition = .ok nearest →
    s.matchBindings other pattern = s.matchBindings candidate pattern

/-- Ground instantiations that are not nullable types are matched by the nearest supertype. -/
theorem WellFormed.decidedByNearest (hs : s.WellFormed) (hground : s.IsGround pattern)
    (hdefinition : s.definitionOf? pattern = some definition)
    (hnullable : s.roles.nullable ≠ some definition) {nearest : Option TypeId}
    (hnearest : s.nearestBuiltFrom candidate definition = .ok nearest) :
    s.DecidedByNearest candidate pattern definition nearest := by
  have hpattern := lt_of_definitionOf? hdefinition
  have hshape := hground.shape_eq hs hdefinition hnullable
  obtain ⟨p, hp⟩ := exists_get? hpattern
  have hcandidate := lt_of_nearestBuiltFrom hnearest
  have hiff : s.MatchesUnbound candidate pattern ↔ ∃ found f p, nearest = some found ∧
      s.get? found = some f ∧ s.get? pattern = some p ∧
      List.Forall₂ s.MatchesUnbound f.arguments p.arguments := by
    rw [matchesUnbound_iff,
      hs.matchInto_iff_of_nearest hp hground hdefinition hnullable hcandidate, hnearest]
    simp only [← matchesUnbound_iff, Except.ok.injEq, hp, Option.some.injEq, exists_and_left,
      exists_eq_left']
  refine ⟨hnearest, ?_, hiff, ?_, ?_⟩
  · obtain ⟨matched, hmatched⟩ := hs.bindsNothing_matchInto hpattern hground hcandidate
    have hanswer : s.matchBindings candidate pattern =
        .ok (if matched then some .empty else none) := bind_eq_ok.mpr ⟨_, hmatched .empty, rfl⟩
    cases matched with
    | false => exact .inr hanswer
    | true => exact .inl hanswer
  · rintro rfl
    refine hiff.mpr ⟨pattern, p, p, rfl, hp, hp, List.forall₂_same.mpr fun arg harg => ?_⟩
    exact matchesUnbound_iff.mpr (hs.matchInto_self (hs.arguments_lt hp arg harg)
      (hground.argument hs hp hdefinition arg harg))
  · intro other hother
    have hsame : s.matchInto other pattern .empty = s.matchInto candidate pattern .empty := by
      obtain ⟨d, hd⟩ := exists_get? (lt_of_nearestBuiltFrom hnearest)
      obtain ⟨e, he⟩ := exists_get? (lt_of_nearestBuiltFrom hother)
      rw [matchInto_eq he hp hshape, matchInto_eq hd hp hshape, matchShape, matchShape,
        matchNearest, matchNearest, hother, hnearest]
    rw [matchBindings, matchBindings, hsame]

/-- A ground pattern that accepts a candidate is matched by it if the pattern itself is the nearest
type with its definition, among the candidate and its supertypes. So it is if there is only one such
type; and a class or value type whose definition does not name itself is always the only one. A
class may be missing from an ancestry that was cut short. -/
theorem Reachable.matchBindings_of_isGround (hs : s.Reachable) (hground : s.IsGround pattern)
    (hdefinition : s.definitionOf? pattern = some definition)
    (hnullable : s.roles.nullable ≠ some definition)
    (haccepts : s.accepts pattern candidate = .ok true) :
    ∃ nearest a, s.DecidedByNearest candidate pattern definition nearest ∧
      s.ancestry candidate = .ok a ∧
      ((∀ other ∈ a.types, s.definitionOf? other = some definition → other = pattern) →
        s.isInterface pattern = true ∨ a.size < maxAncestrySize → nearest = some pattern) ∧
      (s.isInterface pattern = false → s.namesItself definition = false →
        a.size < maxAncestrySize → nearest = some pattern) := by
  have hwf := hs.coherent.wellFormed
  obtain ⟨-, hcandidate⟩ := lt_of_accepts haccepts
  obtain ⟨nearest, hnearest⟩ := hwf.answered_nearestBuiltFrom hcandidate definition
  obtain ⟨a, ha⟩ := hwf.answered_ancestry hcandidate
  have hunique : (∀ other ∈ a.types, s.definitionOf? other = some definition → other = pattern) →
      s.isInterface pattern = true ∨ a.size < maxAncestrySize → nearest = some pattern := by
    intro hunique hreach
    have hmem := hwf.mem_types_of_accepts hground hdefinition hnullable haccepts ha hreach
    rw [nearestBuiltFrom_eq_of_unique ha hcandidate hmem hdefinition hunique] at hnearest
    exact (Except.ok.inj hnearest).symm
  refine ⟨nearest, a, hwf.decidedByNearest hground hdefinition hnullable hnearest, ha, hunique, ?_⟩
  intro hclass hself hfew
  have habove : ∀ {x : TypeId}, x ∈ a.types → ∃ distance, s.Above candidate distance x := by
    intro x hx
    obtain ⟨entry, hentry, rfl⟩ := List.mem_map.mp hx
    exact ⟨entry.2, ((ancestry_sound ha).2 entry hentry).1⟩
  have hmem := hwf.mem_types_of_accepts hground hdefinition hnullable haccepts ha (.inr hfew)
  obtain ⟨distance, hpath⟩ := habove hmem
  refine hunique (fun other hother hdefinition' => ?_) (.inr hfew)
  obtain ⟨distance', hpath'⟩ := habove hother
  exact eq_of_above hs.coherent hcandidate hpath hpath' hdefinition hdefinition' hclass hself

/-! ## Two interfaces of one definition -/

/-- An interface `I<T>`, classes `A` and `B`, and a class `Both` with the interfaces `I<A>` and
`I<B>`. -/
def twoInterfaces : Store :=
  let interface : Declaration := { Declaration.plain .interface "I" with parameters := ["T"] }
  let both : Declaration :=
    { Declaration.plain .classType "Both" with interfaces := ["I<A>", "I<B>"] }
  let declared := (Operation.declare interface).perform.after .empty
  let declared := (Operation.declare (.plain .classType "A")).perform.after declared
  let declared := (Operation.declare (.plain .classType "B")).perform.after declared
  (Operation.declare both).perform.after declared

theorem reachable_twoInterfaces : twoInterfaces.Reachable :=
  .step _ (.step _ (.step _ (.step _ .empty)))

theorem isGround_twoInterfaces : twoInterfaces.IsGround 5 ∧ twoInterfaces.IsGround 6 := by
  have hs := reachable_twoInterfaces.coherent.wellFormed
  constructor
  · exact (hs.isGround_iff (by decide +kernel)).mpr (by decide +kernel)
  · exact (hs.isGround_iff (by decide +kernel)).mpr (by decide +kernel)

/-- `I<B>` accepts `Both`, but is not matched by it, because `I<A>` comes first. -/
theorem not_matched_of_accepted :
    ¬ ∀ (s : Store) (candidate pattern definition : TypeId), s.Reachable → s.IsGround pattern →
      s.definitionOf? pattern = some definition → s.roles.nullable ≠ some definition →
      s.accepts pattern candidate = .ok true → s.MatchesUnbound candidate pattern := by
  intro hmatched
  have hunbound := hmatched twoInterfaces 4 6 0 reachable_twoInterfaces isGround_twoInterfaces.2
    (by decide +kernel) (by decide +kernel) (by decide +kernel)
  have hnone : twoInterfaces.matchBindings 4 6 = .ok none := by decide +kernel
  rw [MatchesUnbound, hnone] at hunbound
  cases hunbound

/-- `I<A>` is matched by `Both`, of which it is the nearest supertype that is built from `I`. -/
theorem matchesUnbound_twoInterfaces : twoInterfaces.MatchesUnbound 4 5 := by
  have hdefinition : twoInterfaces.definitionOf? 5 = some 0 := by decide +kernel
  have haccepts : twoInterfaces.accepts 5 4 = .ok true := by decide +kernel
  obtain ⟨nearest, _, hdecided, -⟩ := reachable_twoInterfaces.matchBindings_of_isGround
    isGround_twoInterfaces.1 hdefinition (by decide +kernel) haccepts
  have hnearest : twoInterfaces.nearestBuiltFrom 4 0 = .ok (some 5) := by decide +kernel
  refine hdecided.matches_of_eq ?_
  rw [hdecided.nearest_eq] at hnearest
  exact Except.ok.inj hnearest

end NominalTypes.Store
