import NominalTypes.Proofs.Hierarchy.Reach
import NominalTypes.Proofs.Totality

/-!
# What both kinds of assignability mean

Direct assignability asks for a path of supertypes from the candidate to the target, and
assignability to a definition for a path to any type that is built from the definition. Each has
paths of its own in the program, and all of them come to the same answer.

- `Store.Reachable.accepts_iff_inReach`: direct assignability, and why it does not matter whether
  the base chain or the ancestry is looked at.
- `Store.StandsFor`: patterns that stand for a definition.
- `Store.WellFormed.shape_of_standsFor`: the shapes of generic patterns.
- `Store.WellFormed.eq_of_widensTo_valueType`: nothing has a value type above itself, which is why
  nullable types need no search.
- `Store.Reachable.acceptsGenerically_iff_inReach`: assignability to a definition.
-/

namespace NominalTypes.Store

variable {s : Store} {type other target candidate pattern definition : TypeId} {d : Descriptor}

/-! ## Direct assignability -/

/-- A candidate with no more types above it than an ancestry holds is accepted by itself, by the
universal root, by its nullable form and by the types in its reach. The base chain and the ancestry
give the same answer for every target that is no interface. -/
theorem Reachable.accepts_iff_inReach (hs : s.Reachable) (htarget : target < s.size)
    (hcandidate : candidate < s.size)
    (hfew : {other | s.WidensTo candidate other}.encard ≤ maxAncestrySize) :
    (∃ answer, s.accepts target candidate = .ok answer ∧
      (answer = true ↔ target = candidate ∨ s.roles.root = some target ∨
        s.IsNullableForm target candidate ∨ s.InReach candidate target)) ∧
    ∃ chain a, s.baseChain candidate = .ok chain ∧ s.ancestry candidate = .ok a ∧
      ∀ other, (a.contains other = true ↔ s.InReach candidate other) ∧
        (s.isInterface other = false → (other ∈ chain ↔ a.contains other = true)) := by
  have hwf := hs.coherent.wellFormed
  constructor
  · obtain ⟨answer, hanswer⟩ := hwf.answered_accepts htarget hcandidate
    refine ⟨answer, hanswer, ?_⟩
    rw [← hwf.accepts_iff htarget hcandidate hfew, hanswer, Except.ok.injEq]
  · obtain ⟨chain, hchain⟩ := hwf.answered_baseChain hcandidate
    obtain ⟨a, ha⟩ := hwf.answered_ancestry hcandidate
    refine ⟨chain, a, hchain, ha, fun other => ?_⟩
    have hcontains : a.contains other = true ↔ s.InReach candidate other := by
      rw [Ancestry.contains_iff, mem_types_iff ha hfew]
    refine ⟨hcontains, fun hclass => ?_⟩
    rw [hwf.mem_baseChain_iff hchain hclass, hcontains]

/-- An interface `Seq<T>`, a class `A`, a class `List<T>` with the interface `Seq<T>`, and the type
`List<A>`, which brings `Seq<A>` with it. -/
def lists : Store :=
  let seq : Declaration := { Declaration.plain .interface "Seq" with parameters := ["T"] }
  let list : Declaration :=
    { Declaration.plain .classType "List" with parameters := ["T"], interfaces := ["Seq<T>"] }
  let declared := (Operation.declare seq).perform.after .empty
  let declared := (Operation.declare (.plain .classType "A")).perform.after declared
  let declared := (Operation.declare list).perform.after declared
  (Operation.readType "List<A>").perform.after declared

theorem reachable_lists : lists.Reachable := .step _ (.step _ (.step _ (.step _ .empty)))

theorem fewAbove_lists : {other | lists.WidensTo 6 other}.encard ≤ maxAncestrySize := by
  have hsize : lists.size = 8 := by decide +kernel
  have hknown : 6 < lists.size := by rw [hsize]; decide
  have hfew := reachable_lists.coherent.wellFormed.encard_widensTo_le hknown
  rw [hsize] at hfew
  exact hfew.trans (by exact_mod_cast (by decide : 8 ≤ maxAncestrySize))

/-- `Seq<A>` is in the reach of `List<A>`. -/
theorem inReach_lists : lists.InReach 6 7 := by
  refine ⟨1, by decide, .step .self ⟨⟨"List", none, .classType, .none,
    .instantiation 3 [2] false, none, [7]⟩, ?_, ?_⟩⟩
  · decide +kernel
  · decide

/-- `Seq<A>` accepts `List<A>`. -/
theorem accepts_lists : lists.accepts 7 6 = .ok true := by
  have htarget : 7 < lists.size := by decide +kernel
  obtain ⟨⟨answer, hanswer, hiff⟩, -⟩ :=
    reachable_lists.accepts_iff_inReach htarget (by decide +kernel) fewAbove_lists
  rw [hanswer, hiff.mpr (.inr (.inr (.inr inReach_lists)))]

/-! ## Patterns that stand for a definition -/

/-- The pattern is the generic definition, or it is built from it and all its arguments are generic
parameters. -/
def StandsFor (s : Store) (pattern definition : TypeId) : Prop :=
  ∃ d, s.get? pattern = some d ∧ s.definitionOf? pattern = some definition ∧
    (pattern = definition ∨ ∀ arg ∈ d.arguments, s.isParameter arg = true)

theorem StandsFor.definitionOf?_eq (h : s.StandsFor pattern definition) :
    s.definitionOf? pattern = some definition := by
  obtain ⟨d, -, hdefinition, -⟩ := h
  exact hdefinition

namespace WellFormed

/-- Among the types that are built from a definition, exactly the definition itself is one. -/
theorem isDefinition_iff (hs : s.WellFormed) (hd : s.get? type = some d)
    (hdefinition : s.definitionOf? type = some definition) :
    d.isDefinition = true ↔ type = definition := by
  have ho := origin?_of_get? hd
  rw [definitionOf?_eq_origin?, ho] at hdefinition
  unfold Descriptor.isDefinition
  cases horigin : d.origin with
  | definition params =>
    rw [horigin] at hdefinition
    exact iff_of_true rfl (Option.some.inj hdefinition)
  | instantiation generic args isOpen =>
    rw [horigin] at ho hdefinition
    obtain ⟨_, -, hsound⟩ := hs.instantiation ho
    cases hdefinition
    exact iff_of_false Bool.false_ne_true (Nat.ne_of_gt hsound.generic_lt)
  | declared | typeParameter _ _ | methodParameter =>
    rw [horigin] at hdefinition
    cases hdefinition

/-- The definition behind a type is built from itself. -/
theorem definitionOf?_definition (hs : s.WellFormed)
    (h : s.definitionOf? type = some definition) :
    s.definitionOf? definition = some definition := by
  have hself := h
  rw [definitionOf?_eq_origin?] at h
  split at h
  · cases h
    exact hself
  · next ho =>
    cases h
    obtain ⟨_, -, hsound⟩ := hs.instantiation ho
    obtain ⟨params, hparams, -⟩ := hsound.parameters
    rw [definitionOf?_eq_origin?, hparams]
  · cases h

/-- So it stands for itself. -/
theorem standsFor_definition (hs : s.WellFormed) (h : s.definitionOf? type = some definition) :
    s.StandsFor definition definition := by
  have hself := hs.definitionOf?_definition h
  obtain ⟨d, hd⟩ := exists_get? (lt_of_definitionOf? hself)
  exact ⟨d, hd, hself, .inl rfl⟩

/-- What is built from a definition is no generic parameter. -/
theorem isParameter_eq_false (hs : s.WellFormed) (hd : s.get? type = some d)
    (h : s.definitionOf? type = some definition) : d.isParameter = false := by
  rw [Bool.eq_false_iff, ne_eq, Descriptor.isParameter, beq_iff_eq, hs.kind_parameter_iff hd]
  rw [definitionOf?_eq_origin?, origin?_of_get? hd] at h
  rintro (⟨declaring, position, horigin⟩ | horigin) <;> rw [horigin] at h <;> cases h

/-- A pattern that stands for a definition has the shape of a definition, of a facade, or of the open
nullable wrapper. -/
theorem shape_of_standsFor (hs : s.WellFormed) (h : s.StandsFor pattern definition) :
    (s.roles.nullable = some definition ∧
      s.shape pattern = .ok (.nullableWrapper definition true)) ∨
    (s.roles.nullable ≠ some definition ∧
      (s.shape pattern = .ok (.definition definition) ∨
        s.shape pattern = .ok (.facade definition))) := by
  obtain ⟨shape, hshape⟩ := answered_shape (lt_of_definitionOf? h.definitionOf?_eq)
  rw [hshape]
  obtain ⟨d, hd, hdefinition, hopen⟩ := h
  have hself := hs.isDefinition_iff hd hdefinition
  have hfacade : d.isDefinition = false → d.arguments.all s.isParameter = true := fun hnot =>
    List.all_eq_true.mpr (hopen.resolve_left fun heq => by simp [hself.mpr heq] at hnot)
  obtain ⟨d', hd', h⟩ := bind_eq_ok.mp hshape
  rw [descriptor_eq_ok, hd] at hd'
  cases hd'
  rw [hs.isParameter_eq_false hd hdefinition] at h
  simp only [hdefinition] at h
  rw [if_neg Bool.false_ne_true] at h
  split at h
  · next hnullable =>
    cases h
    refine .inl ⟨hnullable, ?_⟩
    cases hdefinition : d.isDefinition with
    | true => rfl
    | false => simp [hfacade hdefinition]
  · next hnullable =>
    refine .inr ⟨hnullable, ?_⟩
    cases hdefinition : d.isDefinition with
    | true =>
      rw [hdefinition] at h
      cases h
      exact .inl rfl
    | false =>
      rw [hdefinition, hfacade hdefinition] at h
      cases h
      exact .inr rfl

/-- Any other pattern has a closed shape. -/
theorem isOpenGeneric_eq_false (hs : s.WellFormed) {shape : Shape}
    (hshape : s.shape pattern = .ok shape) (h : ∀ definition, ¬ s.StandsFor pattern definition) :
    shape.isOpenGeneric = false := by
  rw [← Bool.not_eq_true]
  intro hopen
  obtain ⟨d, hd, ⟨name, rfl, -⟩ | ⟨rfl, -⟩ | ⟨definition, -, hdefinition, -, hall, -⟩⟩ :=
    hs.shape_cases hshape
  · cases hopen
  · cases hopen
  · exact h definition ⟨d, hd, hdefinition, .inr (hall hopen)⟩

/-! ## Supertypes built from a definition -/

/-- The supertypes of a type are classes and interfaces, so a value type is above itself only. -/
theorem eq_of_widensTo_valueType (hs : s.WellFormed) (h : s.WidensTo type other)
    (hkind : s.kind? other = some .valueType) : other = type := by
  obtain ⟨distance, hpath⟩ := h
  cases hpath with
  | self => rfl
  | @step _ lower _ _ edge =>
    obtain ⟨d, hd, hmem⟩ := edge
    have hsound := hs.sound lower d hd
    rcases Descriptor.mem_supertypes.mp hmem with hbase | hinterface
    · have hclass := hsound.base other hbase
      rw [hkind] at hclass
      cases hclass
    · have hinterface := hsound.interfaces other hinterface
      rw [hkind] at hinterface
      cases hinterface

/-- A type is of the same sort as its definition. -/
theorem kind?_eq_of_definitionOf? (hs : s.WellFormed)
    (h : s.definitionOf? type = some definition) : s.kind? type = s.kind? definition := by
  rw [← hs.kind?_head (lt_of_definitionOf? h), head_of_definitionOf? h]

/-- The nearest type with a definition is found exactly if there is one in reach. -/
theorem nearestBuiltFrom_isSome_iff (hs : s.WellFormed) (hcandidate : candidate < s.size)
    (hfew : {other | s.WidensTo candidate other}.encard ≤ maxAncestrySize) {nearest : Option TypeId}
    (hnearest : s.nearestBuiltFrom candidate definition = .ok nearest) :
    nearest.isSome = true ↔
      ∃ ancestor, s.InReach candidate ancestor ∧ s.definitionOf? ancestor = some definition := by
  obtain ⟨a, ha⟩ := hs.answered_ancestry hcandidate
  have hself : s.InReach candidate candidate := ⟨0, Nat.zero_le _, .self⟩
  by_cases hbuilt : s.definitionOf? candidate = some definition
  · obtain ⟨d, hd⟩ := exists_get? hcandidate
    rw [nearestBuiltFrom_self hd hbuilt] at hnearest
    cases hnearest
    exact iff_of_true rfl ⟨candidate, hself, hbuilt⟩
  · obtain ⟨d, -, hnearest⟩ := bind_eq_ok.mp hnearest
    rw [if_neg hbuilt, ha] at hnearest
    cases hnearest
    simp [List.find?_isSome, mem_types_iff ha hfew]

end WellFormed

/-! ## Assignability to a definition -/

/-- Assignability to what a pattern of some shape stands for. -/
def acceptsShape (s : Store) (pattern candidate : TypeId) : Shape → Except RelationError Bool
  | .definition definition | .facade definition =>
    (s.nearestBuiltFrom candidate definition).map Option.isSome
  | .nullableWrapper definition true =>
    .ok (candidate == pattern || s.definitionOf? candidate == some definition)
  | _ => .ok (candidate == pattern)

theorem acceptsGenerically_eq_of_shape (hcandidate : candidate < s.size) {shape : Shape}
    (hshape : s.shape pattern = .ok shape) :
    s.acceptsGenerically pattern candidate = s.acceptsShape pattern candidate shape := by
  obtain ⟨d, hd⟩ := exists_get? hcandidate
  rw [acceptsGenerically, descriptor_eq_ok.mpr hd, hshape]
  cases shape with
  | nullableWrapper definition isOpen => cases isOpen <;> rfl
  | _ => rfl

namespace WellFormed

/-- The nearest type built from the nullable wrapper can only be the candidate itself. -/
theorem nearestBuiltFrom_nullable (hs : s.WellFormed) (hcandidate : candidate < s.size)
    (hfew : {other | s.WidensTo candidate other}.encard ≤ maxAncestrySize)
    (hnullable : s.roles.nullable = some definition) {nearest : Option TypeId}
    (hnearest : s.nearestBuiltFrom candidate definition = .ok nearest) :
    nearest.isSome = true ↔ s.definitionOf? candidate = some definition := by
  rw [hs.nearestBuiltFrom_isSome_iff hcandidate hfew hnearest]
  constructor
  · rintro ⟨ancestor, hreach, hbuilt⟩
    have hkind : s.kind? ancestor = some .valueType := by
      rw [hs.kind?_eq_of_definitionOf? hbuilt, (hs.roles.nullable definition hnullable).1]
    rwa [hs.eq_of_widensTo_valueType hreach.widensTo hkind] at hbuilt
  · exact fun hbuilt => ⟨candidate, ⟨0, Nat.zero_le _, .self⟩, hbuilt⟩

/-- What stands for a definition accepts a candidate if a type with the definition is found, also
where only the candidate itself is looked at. -/
theorem acceptsGenerically_of_standsFor (hs : s.WellFormed) (hcandidate : candidate < s.size)
    (hfew : {other | s.WidensTo candidate other}.encard ≤ maxAncestrySize)
    (h : s.StandsFor pattern definition) {nearest : Option TypeId}
    (hnearest : s.nearestBuiltFrom candidate definition = .ok nearest) :
    s.acceptsGenerically pattern candidate = .ok nearest.isSome := by
  rcases hs.shape_of_standsFor h with ⟨hnullable, hshape⟩ | ⟨-, hshape | hshape⟩
  · have hself : candidate = pattern → s.definitionOf? candidate = some definition := fun heq =>
      heq ▸ h.definitionOf?_eq
    rw [acceptsGenerically_eq_of_shape hcandidate hshape, acceptsShape, Except.ok.injEq,
      Bool.eq_iff_iff,
      hs.nearestBuiltFrom_nullable hcandidate hfew hnullable hnearest, Bool.or_eq_true,
      beq_iff_eq, beq_iff_eq]
    exact or_iff_right_of_imp hself
  · rw [acceptsGenerically_eq_of_shape hcandidate hshape, acceptsShape, hnearest]
    rfl
  · rw [acceptsGenerically_eq_of_shape hcandidate hshape, acceptsShape, hnearest]
    rfl

/-- What stands for no definition accepts itself only. -/
theorem acceptsGenerically_of_not_standsFor (hs : s.WellFormed) (hpattern : pattern < s.size)
    (hcandidate : candidate < s.size) (h : ∀ definition, ¬ s.StandsFor pattern definition) :
    s.acceptsGenerically pattern candidate = .ok (candidate == pattern) := by
  obtain ⟨shape, hshape⟩ := answered_shape hpattern
  have hclosed := hs.isOpenGeneric_eq_false hshape h
  rw [acceptsGenerically_eq_of_shape hcandidate hshape]
  cases shape with
  | nullableWrapper definition isOpen =>
    rw [Shape.isOpenGeneric_nullableWrapper] at hclosed
    rw [hclosed]
    rfl
  | definition | facade => cases hclosed
  | _ => rfl

end WellFormed

/-- A pattern that stands for a definition accepts the candidates with a type in reach that is built
from the definition. Definition and facade have the same answers, and those are the answers of the
search through the whole ancestry, also for the nullable wrapper, where only the candidate itself is
looked at. Any other pattern accepts itself only. -/
theorem Reachable.acceptsGenerically_iff_inReach (hs : s.Reachable) (hpattern : pattern < s.size)
    (hcandidate : candidate < s.size)
    (hfew : {other | s.WidensTo candidate other}.encard ≤ maxAncestrySize) :
    ∃ answer, s.acceptsGenerically pattern candidate = .ok answer ∧
      (∀ definition, s.StandsFor pattern definition →
        (answer = true ↔ ∃ ancestor, s.InReach candidate ancestor ∧
          s.definitionOf? ancestor = some definition) ∧
        s.acceptsGenerically definition candidate = .ok answer ∧
        (∃ nearest, s.nearestBuiltFrom candidate definition = .ok nearest ∧
          nearest.isSome = answer) ∧
        (s.roles.nullable = some definition →
          (answer = true ↔ s.definitionOf? candidate = some definition))) ∧
      ((∀ definition, ¬ s.StandsFor pattern definition) →
        (answer = true ↔ candidate = pattern)) := by
  have hwf := hs.coherent.wellFormed
  obtain ⟨answer, hanswer⟩ := hwf.answered_acceptsGenerically hpattern hcandidate
  refine ⟨answer, hanswer, fun definition hstands => ?_, fun hnot => ?_⟩
  · obtain ⟨nearest, hnearest⟩ := hwf.answered_nearestBuiltFrom hcandidate definition
    have hsame := hwf.acceptsGenerically_of_standsFor hcandidate hfew hstands hnearest
    rw [hanswer] at hsame
    cases hsame
    have hself := hwf.standsFor_definition hstands.definitionOf?_eq
    exact ⟨hwf.nearestBuiltFrom_isSome_iff hcandidate hfew hnearest,
      hwf.acceptsGenerically_of_standsFor hcandidate hfew hself hnearest,
      ⟨nearest, hnearest, rfl⟩,
      fun hnullable => hwf.nearestBuiltFrom_nullable hcandidate hfew hnullable hnearest⟩
  · have hsame := hwf.acceptsGenerically_of_not_standsFor hpattern hcandidate hnot
    rw [hanswer] at hsame
    cases hsame
    exact beq_iff_eq

/-- The facade `Seq<T>` accepts `List<A>`, which has `Seq<A>` above it, and so does `Seq` itself. -/
theorem acceptsGenerically_lists :
    lists.acceptsGenerically 5 6 = .ok true ∧ lists.acceptsGenerically 0 6 = .ok true := by
  have hfacade : lists.StandsFor 5 0 := by
    refine ⟨⟨"Seq", none, .interface, .none, .instantiation 0 [4] true, none, []⟩, ?_, ?_, .inr ?_⟩
    · decide +kernel
    · decide +kernel
    · decide +kernel
  have hpattern : 5 < lists.size := by decide +kernel
  obtain ⟨answer, hanswer, hiff, -⟩ :=
    reachable_lists.acceptsGenerically_iff_inReach hpattern (by decide +kernel) fewAbove_lists
  obtain ⟨htrue, hsame, -⟩ := hiff 0 hfacade
  have hseq : lists.definitionOf? 7 = some 0 := by decide +kernel
  rw [htrue.mpr ⟨7, inReach_lists, hseq⟩] at hanswer hsame
  exact ⟨hanswer, hsame⟩

end NominalTypes.Store
