import NominalTypes.CommonAncestor
import NominalTypes.Proofs.Atomicity
import NominalTypes.Proofs.Coherence
import NominalTypes.Proofs.Pattern.Derivation

/-!
# References are sound, and questions have answers

A question fails only where it comes to a handle of no type. In a reachable store, no descriptor and
no table holds such a handle, so every question about known types has an answer. This is true after
failed operations too; a reference may only be missing while a declaration is under way.

- `Store.References`: what descriptors and tables mention is known and of the right sort.
- `Store.Total`: the questions that always have an answer.
- `Store.WellFormed.answered_matchInto`, `Store.WellFormed.answered_lowestCommonAncestor`: the
  longest of them.
- `Store.Reachable.references_and_total`: the main result.
-/

namespace NominalTypes

/-- The types that an origin mentions. -/
def Origin.mentioned : Origin → List TypeId
  | .definition parameters => parameters
  | .instantiation generic args _ => generic :: args
  | .typeParameter declaring _ => [declaring]
  | .declared | .methodParameter => []

/-- All types that a descriptor mentions. -/
def Descriptor.mentioned (d : Descriptor) : List TypeId := d.supertypes ++ d.origin.mentioned

namespace Store

variable {s : Store} {type candidate pattern target : TypeId}

/-! ## Assignability -/

theorem answered_shape (htype : type < s.size) : Answered (s.shape type) := by
  refine (answered_descriptor htype).bind fun d _ => ?_
  by_cases hparameter : d.isParameter = true
  · rw [if_pos hparameter]
    exact answered_ok _
  rw [if_neg hparameter]
  cases s.definitionOf? type with
  | none => exact answered_ok _
  | some definition =>
    dsimp only
    split_ifs <;> exact answered_ok _

namespace WellFormed

theorem answered_accepts (hs : s.WellFormed) (htarget : target < s.size)
    (hcandidate : candidate < s.size) : Answered (s.accepts target candidate) := by
  obtain ⟨d, hd⟩ := exists_get? htarget
  rw [accepts_eq hd hcandidate]
  split_ifs
  · exact answered_ok true
  · exact (hs.answered_ancestry hcandidate).map _
  · exact (hs.answered_baseChain hcandidate).map _

theorem answered_acceptsGenerically (hs : s.WellFormed) (hpattern : pattern < s.size)
    (hcandidate : candidate < s.size) : Answered (s.acceptsGenerically pattern candidate) := by
  refine (answered_descriptor hcandidate).bind fun _ _ => ?_
  refine (answered_shape hpattern).bind fun shape _ => ?_
  split
  · exact (hs.answered_nearestBuiltFrom hcandidate _).bind fun _ _ => answered_ok _
  · exact (hs.answered_nearestBuiltFrom hcandidate _).bind fun _ _ => answered_ok _
  all_goals exact answered_ok _

end WellFormed

/-! ## Matching -/

theorem answered_matchPairs {match1 : TypeId → TypeId → Bindings String TypeId → MatchResult}
    {args : List TypeId} :
    ∀ {patterns : List TypeId},
      (∀ arg ∈ args, ∀ pattern ∈ patterns, ∀ b, Answered (match1 arg pattern b)) →
      ∀ b, Answered (matchPairs match1 args patterns b) := by
  induction args with
  | nil =>
    intro patterns _ b
    cases patterns <;> exact answered_ok _
  | cons arg args ih =>
    intro patterns h b
    cases patterns with
    | nil => exact answered_ok _
    | cons pattern patterns =>
      refine (h arg List.mem_cons_self pattern List.mem_cons_self b).bind fun ⟨matched, b'⟩ _ => ?_
      cases matched with
      | false => exact answered_ok _
      | true =>
        exact ih (fun a ha p hp => h a (List.mem_cons_of_mem _ ha) p (List.mem_cons_of_mem _ hp)) b'

theorem answered_matchParameter (hcandidate : candidate < s.size) (hpattern : pattern < s.size)
    (b : Bindings String TypeId) : Answered (s.matchParameter candidate pattern b) := by
  refine (answered_descriptor hcandidate).bind fun _ _ => ?_
  refine (answered_shape hpattern).bind fun shape _ => ?_
  split <;> exact answered_ok _

namespace WellFormed

/-- Matching goes down the pattern, whose arguments are known, and compares them with the arguments
of known types. -/
theorem answered_matchInto (hs : s.WellFormed) (hcandidate : candidate < s.size)
    (hpattern : pattern < s.size) (b : Bindings String TypeId) :
    Answered (s.matchInto candidate pattern b) := by
  induction pattern using Nat.strongRecOn generalizing candidate b with
  | ind pattern ih =>
    obtain ⟨d, hd⟩ := exists_get? hcandidate
    obtain ⟨p, hp⟩ := exists_get? hpattern
    obtain ⟨shape, hshape⟩ := answered_shape hpattern
    have hargument : ∀ arg, arg < s.size → ∀ inner ∈ p.arguments, ∀ b,
        Answered (s.matchArgument pattern arg inner b) := by
      intro arg harg inner hinner b
      have hknown := hs.arguments_lt hp inner hinner
      by_cases hlt : inner < pattern
      · rw [matchArgument, if_pos hlt]
        exact ih inner hlt harg hknown b
      · rw [matchArgument, if_neg hlt]
        exact answered_matchParameter harg hknown b
    have hpairs : ∀ {found : TypeId} {f : Descriptor}, s.get? found = some f →
        Answered (matchPairs (s.matchArgument pattern) f.arguments p.arguments b) := fun hf =>
      answered_matchPairs (fun arg harg => hargument arg (hs.arguments_lt hf arg harg)) b
    have hnearest : ∀ definition, Answered (s.matchNearest candidate pattern definition p b) := by
      intro definition
      obtain ⟨_ | found, hfound⟩ := hs.answered_nearestBuiltFrom hcandidate definition
      · exact ⟨_, matchNearest_of_none hfound⟩
      · obtain ⟨f, hf⟩ := exists_get?_of_nearestBuiltFrom hfound
        rw [matchNearest_of_found hfound hf]
        exact hpairs hf
    rw [matchInto_eq hd hp hshape]
    unfold matchShape
    split
    · exact answered_ok _
    · exact (hs.answered_accepts hpattern hcandidate).map _
    · split_ifs
      · exact hpairs hd
      · split
        · next inner hinner =>
          exact hargument candidate hcandidate inner (hinner ▸ List.mem_singleton_self inner) b
        · exact answered_ok _
      · exact answered_ok _
    all_goals exact hnearest _

theorem answered_matchBindings (hs : s.WellFormed) (hcandidate : candidate < s.size)
    (hpattern : pattern < s.size) : Answered (s.matchBindings candidate pattern) :=
  (hs.answered_matchInto hcandidate hpattern .empty).bind fun _ _ => answered_ok _

end WellFormed

/-! ## Common ancestors -/

/-- The lowest common ancestor of known types. -/
theorem lowestCommonAncestor_eq {first : TypeId} {rest : List TypeId}
    (h : ∀ type ∈ first :: rest, type < s.size) :
    s.lowestCommonAncestor (first :: rest) =
      if rest.all (· == first) then .ok (some first) else s.lowestCommonOf (first :: rest) := by
  have hknown : ∀ types : List TypeId, (∀ type ∈ types, type < s.size) →
      (types.forM fun type => do let _ ← s.descriptor type) = .ok ⟨⟩ := by
    intro types htypes
    induction types with
    | nil => rfl
    | cons type types ih =>
      obtain ⟨htype, hrest⟩ := List.forall_mem_cons.mp htypes
      obtain ⟨d, hd⟩ := exists_get? htype
      rw [List.forM, descriptor_eq_ok.mpr hd]
      exact ih hrest
  rw [lowestCommonAncestor, hknown (first :: rest) h]
  rfl

namespace WellFormed

theorem answered_deepestInterface (hs : s.WellFormed) (ancestries : List Ancestry)
    {common : List (TypeId × Nat)} (hcommon : ∀ entry ∈ common, entry.1 < s.size) :
    Answered (s.deepestInterface ancestries common) := by
  refine (answered_mapM fun entry hentry => ?_).bind fun ranked _ => answered_ok _
  have hknown := hcommon entry (List.mem_of_mem_filter hentry)
  exact (hs.answered_interfaceDepth hknown).bind fun depth _ => answered_ok _

/-- What is common to the ancestries of known types is known. -/
theorem commonMembers_lt (hs : s.WellFormed) {inputs : List TypeId} {first : Ancestry}
    {others : List Ancestry} (hinputs : ∀ type ∈ inputs, type < s.size)
    (h : inputs.mapM s.ancestry = .ok (first :: others)) :
    ∀ entry ∈ s.commonMembers first others, entry.1 < s.size := by
  intro entry hentry
  cases inputs with
  | nil => cases h
  | cons type rest =>
    rw [List.mapM_cons] at h
    obtain ⟨a, ha, h⟩ := bind_eq_ok.mp h
    obtain ⟨_, -, h⟩ := bind_eq_ok.mp h
    cases h
    exact hs.ancestry_lt (hinputs type List.mem_cons_self) ha entry (List.mem_of_mem_filter hentry)

theorem answered_lowestCommonOf (hs : s.WellFormed) {inputs : List TypeId}
    (hinputs : ∀ type ∈ inputs, type < s.size) : Answered (s.lowestCommonOf inputs) := by
  have hancestries : Answered (inputs.mapM s.ancestry) :=
    answered_mapM fun type htype => hs.answered_ancestry (hinputs type htype)
  refine hancestries.bind fun ancestries hall => ?_
  cases ancestries with
  | nil => exact answered_ok none
  | cons first others =>
    dsimp only
    split
    · exact answered_ok none
    split
    · exact answered_ok _
    exact hs.answered_deepestInterface _ (hs.commonMembers_lt hinputs hall)

/-- Some known types have a lowest common ancestor, or the answer that they have none. -/
theorem answered_lowestCommonAncestor (hs : s.WellFormed) {inputs : List TypeId}
    (hne : inputs ≠ []) (hinputs : ∀ type ∈ inputs, type < s.size) :
    Answered (s.lowestCommonAncestor inputs) := by
  cases inputs with
  | nil => exact absurd rfl hne
  | cons first rest =>
    rw [lowestCommonAncestor_eq hinputs]
    split
    · exact answered_ok _
    · exact hs.answered_lowestCommonOf hinputs

end WellFormed

/-! ## Reachable stores -/

/-- All that descriptors and tables mention is known, and what a descriptor mentions is of the sort
that its place asks for. -/
structure References (s : Store) : Prop where
  mentioned : ∀ {type : TypeId} {d : Descriptor}, s.get? type = some d →
    ∀ other ∈ d.mentioned, other < s.size
  tables : s.Closed
  roles : ∀ type, s.roles.root = some type ∨ s.roles.valueTypeRoot = some type ∨
    s.roles.nullable = some type → type < s.size
  base : ∀ {type base : TypeId} {d : Descriptor}, s.get? type = some d → d.base = some base →
    s.kind? base = some .classType
  interfaces : ∀ {type : TypeId} {d : Descriptor}, s.get? type = some d →
    ∀ interface ∈ d.interfaces, s.kind? interface = some .interface
  no_base : ∀ {type : TypeId} {d : Descriptor}, s.get? type = some d →
    d.isInterface = true ∨ d.isParameter = true → d.base = none
  /-- A definition stands for itself applied to its own parameters, which know their places. -/
  definition : ∀ {type : TypeId} {d : Descriptor}, s.get? type = some d → d.isDefinition = true →
    s.definitionOf? type = some type ∧
      ∀ position param, d.arguments[position]? = some param →
        ∃ p, s.get? param = some p ∧ p.isParameter = true ∧ p.declaring? = some type ∧
          p.position? = some position
  /-- An instantiation looks like its definition. -/
  instantiation : ∀ {type generic : TypeId} {d : Descriptor}, s.get? type = some d →
    s.definitionOf? type = some generic → generic ≠ type →
    ∃ g, s.get? generic = some g ∧ g.isDefinition = true ∧ g.arity = d.arity ∧ d.name = g.name ∧
      d.qualifier = g.qualifier ∧ d.kind = g.kind

/-- Every question about known types has an answer. -/
structure Total (s : Store) : Prop where
  ancestry : ∀ type, type < s.size → Answered (s.ancestry type)
  baseChain : ∀ type, type < s.size → Answered (s.baseChain type)
  interfaceDepth : ∀ type, type < s.size → Answered (s.interfaceDepth type)
  nearestBuiltFrom : ∀ type generic, type < s.size → Answered (s.nearestBuiltFrom type generic)
  accepts : ∀ target candidate, target < s.size → candidate < s.size →
    Answered (s.accepts target candidate)
  acceptsGenerically : ∀ pattern candidate, pattern < s.size → candidate < s.size →
    Answered (s.acceptsGenerically pattern candidate)
  matchInto : ∀ candidate pattern b, candidate < s.size → pattern < s.size →
    Answered (s.matchInto candidate pattern b)
  matchBindings : ∀ candidate pattern, candidate < s.size → pattern < s.size →
    Answered (s.matchBindings candidate pattern)
  lowestCommonAncestor : ∀ inputs, inputs ≠ [] → (∀ type ∈ inputs, type < s.size) →
    Answered (s.lowestCommonAncestor inputs)

namespace WellFormed

theorem mentioned_lt (hs : s.WellFormed) {d : Descriptor} (hd : s.get? type = some d) :
    ∀ other ∈ d.mentioned, other < s.size := by
  intro other hother
  have ho := origin?_of_get? hd
  rcases List.mem_append.mp hother with hsupertype | hmentioned
  · exact (hs.sound type d hd).supertypes_lt hsupertype
  cases horigin : d.origin with
  | declared | methodParameter =>
    rw [horigin] at hmentioned
    cases hmentioned
  | definition params =>
    rw [horigin] at ho hmentioned
    obtain ⟨position, hposition⟩ := hs.parameter_origin? ho hmentioned
    exact lt_of_origin? hposition
  | instantiation generic args isOpen =>
    rw [horigin] at ho hmentioned
    rcases List.mem_cons.mp hmentioned with rfl | harg
    · obtain ⟨_, -, hsound⟩ := hs.instantiation ho
      exact Nat.lt_trans hsound.generic_lt (lt_of_get? hd)
    · exact (hs.args_known ho harg).2
  | typeParameter declaring position =>
    rw [horigin] at hmentioned
    rw [List.mem_singleton.mp hmentioned]
    have hsound := (hs.sound type d hd).origin
    unfold SoundOrigin at hsound
    rw [horigin] at hsound
    exact Nat.lt_trans hsound.2.1 (lt_of_get? hd)

theorem references (hs : s.WellFormed) : s.References where
  mentioned := hs.mentioned_lt
  tables := hs.closed
  roles type htype := by
    rcases htype with hroot | hroot | hnullable
    · exact lt_of_kind? (hs.roles.root type hroot).1
    · exact lt_of_kind? (hs.roles.valueTypeRoot type hroot).1
    · exact lt_of_kind? (hs.roles.nullable type hnullable).1
  base hd hbase := (hs.sound _ _ hd).base _ hbase
  interfaces hd := (hs.sound _ _ hd).interfaces
  no_base {type d} hd hkind := by
    have hsound := hs.sound type d hd
    rcases hkind with hinterface | hparameter
    · exact hsound.base_interface (eq_of_beq hinterface)
    · have hnone := hsound.supertypes_parameter (eq_of_beq hparameter)
      exact Option.toList_eq_nil_iff.mp (List.append_eq_nil_iff.mp hnone).1
  definition {type d} hd hdefinition := by
    have ho := origin?_of_get? hd
    unfold Descriptor.isDefinition at hdefinition
    split at hdefinition
    swap
    · cases hdefinition
    next params horigin =>
    rw [horigin] at ho
    refine ⟨by rw [definitionOf?_eq_origin?, ho], fun position param hparam => ?_⟩
    rw [Descriptor.arguments, horigin] at hparam
    obtain ⟨-, hposition⟩ := (hs.definition ho).2 position param hparam
    obtain ⟨p, hp, hpo, -⟩ := hs.sound_of_origin? hposition
    have hkind := (hs.kind_parameter_iff hp).mpr (.inl ⟨_, _, hpo⟩)
    refine ⟨p, hp, by rw [Descriptor.isParameter, hkind]; rfl, ?_, ?_⟩
    · rw [Descriptor.declaring?, hpo]
    · rw [Descriptor.position?, hpo]
  instantiation {type generic d} hd hgeneric hne := by
    have ho := origin?_of_get? hd
    rw [definitionOf?_eq_origin?, ho] at hgeneric
    split at hgeneric
    · cases hgeneric
      exact absurd rfl hne
    · next args isOpen horigin =>
      cases hgeneric
      rw [Option.some.inj horigin] at ho
      obtain ⟨d', hd', hsound⟩ := hs.instantiation ho
      rw [hd] at hd'
      cases hd'
      obtain ⟨params, hparams, hlength, -⟩ := hsound.parameters
      obtain ⟨g, hg, hgo, -⟩ := hs.sound_of_origin? hparams
      obtain ⟨g', hg', hname, hqualifier, hkind, -⟩ := hsound.outline
      rw [outline?, hg] at hg'
      cases hg'
      refine ⟨g, hg, by rw [Descriptor.isDefinition, hgo], ?_, hname, hqualifier, hkind⟩
      rw [Descriptor.arity, Descriptor.arity, Descriptor.arguments, Descriptor.arguments, hgo,
        Option.some.inj horigin]
      exact hlength
    · cases hgeneric

theorem total (hs : s.WellFormed) : s.Total where
  ancestry _ htype := hs.answered_ancestry htype
  baseChain _ htype := hs.answered_baseChain htype
  interfaceDepth _ htype := hs.answered_interfaceDepth htype
  nearestBuiltFrom _ generic htype := hs.answered_nearestBuiltFrom htype generic
  accepts _ _ := hs.answered_accepts
  acceptsGenerically _ _ hcandidate hpattern := hs.answered_acceptsGenerically hcandidate hpattern
  matchInto _ _ b hcandidate hpattern := hs.answered_matchInto hcandidate hpattern b
  matchBindings _ _ := hs.answered_matchBindings
  lowestCommonAncestor _ := hs.answered_lowestCommonAncestor

end WellFormed

/-- In a reachable store references are sound, and every question about known types has an
answer. -/
theorem Reachable.references_and_total (hs : s.Reachable) : s.References ∧ s.Total :=
  ⟨hs.coherent.wellFormed.references, hs.coherent.wellFormed.total⟩

/-- After a declaration has failed, the types that were there before still have an answer to which
is their lowest common ancestor. -/
theorem answered_after_unfinished :
    ((Operation.declare unfinished).perform selfReferring).1 =
        .error (.unknownTypeName "Missing") ∧
      Answered (((Operation.declare unfinished).perform.after selfReferring).lowestCommonAncestor
        [3, 6]) := by
  refine ⟨by decide +kernel, ?_⟩
  have hreachable : ((Operation.declare unfinished).perform.after selfReferring).Reachable :=
    .step _ reachable_selfReferring
  exact hreachable.references_and_total.2.lowestCommonAncestor [3, 6] (by simp) (by decide +kernel)

end Store

end NominalTypes
