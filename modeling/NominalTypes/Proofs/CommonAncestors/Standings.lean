import NominalTypes.Proofs.CommonAncestors.Candidates
import NominalTypes.Proofs.Hierarchy.Order

/-!
# Standings of common interfaces

What decides between common interfaces can be told from the hierarchy alone, without ancestries: the
depth of an interface, the number of inputs to which no candidate is nearer, and the length of a
shortest path from the first input. Only the last of these looks at the order of the inputs.

- `Store.IsNearest`, `Store.votesAmong`: nearest candidates, and the inputs that have the type as one.
- `Store.InLimits.ballot_iff`: the votes that are counted in ancestries.
- `Store.HasStanding`: the standing of an interface.
- `Store.IsChosen`: what there is to say of a lowest common ancestor of types that differ.
- `Store.WellFormed.lowestCommonOf_chosen`: the two procedures.
-/

namespace NominalTypes

namespace Store

variable {s : Store} {type other input : TypeId} {inputs inputs' : List TypeId} {distance : Nat}
  {candidates : TypeId → Prop}

/-! ## Distances -/

theorem WidensTo.exists_isLeast (h : s.WidensTo type other) :
    ∃ distance, IsLeast {length | s.Above type length other} distance := by
  classical
  exact ⟨Nat.find h, Nat.find_spec h, fun _ => Nat.find_min' h⟩

/-- The distance in an ancestry is the length of a shortest path. -/
theorem InLimits.distance?_eq_some_iff (h : s.InLimits type) {a : Ancestry}
    (ha : s.ancestry type = .ok a) :
    a.distance? other = some distance ↔
      IsLeast {length | s.Above type length other} distance := by
  have hmember : ∀ {distance}, (other, distance) ∈ a.members ↔
      IsLeast {length | s.Above type length other} distance := by
    intro distance
    rw [mem_members_iff ha h.size, and_iff_right_iff_imp]
    rintro hleast
    obtain ⟨length, hlength, hpath⟩ := h.distance ⟨distance, hleast.1⟩
    exact (hleast.2 hpath).trans hlength
  have hsound : ∀ {distance}, a.distance? other = some distance →
      (other, distance) ∈ a.members := by
    intro distance hdistance
    obtain ⟨before, after, heq, -⟩ := List.lookup_eq_some_iff.mp hdistance
    rw [heq]
    exact List.mem_append_right _ List.mem_cons_self
  refine ⟨fun hdistance => hmember.mp (hsound hdistance), fun hleast => ?_⟩
  -- the type is listed, and has one distance only
  have hlisted : (a.distance? other).isSome = true :=
    List.lookup_isSome_iff.mpr ⟨_, hmember.mpr hleast, beq_self_eq_true other⟩
  obtain ⟨nearer, hnearer⟩ := Option.isSome_iff_exists.mp hlisted
  rw [hnearer, (hmember.mp (hsound hnearer)).unique hleast]

/-! ## Votes -/

/-- No candidate is nearer to the input than the type, which is above it. -/
def IsNearest (s : Store) (candidates : TypeId → Prop) (input type : TypeId) : Prop :=
  ∃ distance, s.Above input distance type ∧
    ∀ other, candidates other → ∀ length, s.Above input length other → distance ≤ length

open Classical in
/-- The number of inputs to which the type is nearest. -/
noncomputable def votesAmong (s : Store) (candidates : TypeId → Prop) (inputs : List TypeId)
    (type : TypeId) : Nat :=
  inputs.countP fun input => s.IsNearest candidates input type

theorem votesAmong_perm (h : inputs.Perm inputs') :
    s.votesAmong candidates inputs type = s.votesAmong candidates inputs' type :=
  h.countP_eq _

theorem nearest?_eq_some_iff {a : Ancestry} {listed : List TypeId} :
    a.nearest? listed = some distance ↔
      (∃ type ∈ listed, a.distance? type = some distance) ∧
        ∀ type ∈ listed, ∀ length, a.distance? type = some length → distance ≤ length := by
  rw [Ancestry.nearest?, List.min?_eq_some_iff]
  simp only [List.mem_filterMap, forall_exists_index, and_imp]
  exact and_congr_right' ⟨fun h type htype length => h length type htype,
    fun h length type htype => h type htype length⟩

/-- An input votes for the candidates that are nearest to it. -/
theorem InLimits.ballot_iff (h : s.InLimits input) {a : Ancestry} (ha : s.ancestry input = .ok a)
    {listed : List TypeId} (htype : type ∈ listed) :
    ((a.nearest? listed).isSome && a.distance? type == a.nearest? listed) = true ↔
      s.IsNearest (· ∈ listed) input type := by
  rw [Bool.and_eq_true, beq_iff_eq, Option.isSome_iff_exists]
  constructor
  · rintro ⟨⟨distance, hnearest⟩, heq⟩
    rw [hnearest] at heq
    refine ⟨distance, ((h.distance?_eq_some_iff ha).mp heq).1, fun other hother length hpath => ?_⟩
    obtain ⟨least, hleast⟩ := WidensTo.exists_isLeast ⟨length, hpath⟩
    have hle := (nearest?_eq_some_iff.mp hnearest).2 other hother least
      ((h.distance?_eq_some_iff ha).mpr hleast)
    exact hle.trans (hleast.2 hpath)
  · rintro ⟨distance, hpath, hnearest⟩
    have hleast : IsLeast {length | s.Above input length type} distance :=
      ⟨hpath, fun length => hnearest type htype length⟩
    have hdistance := (h.distance?_eq_some_iff ha).mpr hleast
    have hfound : a.nearest? listed = some distance := by
      refine nearest?_eq_some_iff.mpr ⟨⟨type, htype, hdistance⟩, fun other hother length hlength => ?_⟩
      exact hnearest other hother length ((h.distance?_eq_some_iff ha).mp hlength).1
    exact ⟨⟨distance, hfound⟩, hdistance.trans hfound.symm⟩

theorem countP_eq_of_forall₂ {α β : Type} {p : α → Bool} {q : β → Bool} {as : List α} {bs : List β}
    (h : List.Forall₂ (fun a b => p a = true ↔ q b = true) as bs) : as.countP p = bs.countP q := by
  induction h with
  | nil => rfl
  | cons hab _ ih => rw [List.countP_cons, List.countP_cons, ih, if_congr hab rfl rfl]

/-- The votes that are counted in the ancestries of the inputs. -/
theorem countP_ballots (hlimits : ∀ input ∈ inputs, s.InLimits input) {ancestries : List Ancestry}
    (hancestries : List.Forall₂ (fun input a => s.ancestry input = .ok a) inputs ancestries)
    {listed : List TypeId} (htype : type ∈ listed) :
    ((ancestries.map fun a => (a, a.nearest? listed)).countP fun ballot =>
      ballot.2.isSome && ballot.1.distance? type == ballot.2) =
        s.votesAmong (· ∈ listed) inputs type := by
  classical
  have hall := (List.forall₂_and_left _ _).mpr ⟨hlimits, hancestries⟩
  rw [List.countP_map, votesAmong]
  refine (countP_eq_of_forall₂ (hall.imp fun input a h => ?_)).symm
  rw [decide_eq_true_eq]
  exact (h.1.ballot_iff h.2 htype).symm

/-! ## Standings -/

/-- The type is an interface that the inputs have in common. -/
def IsCommonInterface (s : Store) (inputs : List TypeId) (type : TypeId) : Prop :=
  s.IsCommon inputs type ∧ s.isInterface type = true

/-- What decides for the type: its depth, the inputs to which it is nearest among the common
interfaces, and how far it is from the first input. -/
structure HasStanding (s : Store) (inputs : List TypeId) (type : TypeId) (standing : Standing) :
    Prop where
  depth : s.interfaceDepth type = .ok standing.depth
  votes : standing.votes = s.votesAmong (s.IsCommonInterface inputs) inputs type
  distance : ∀ first, inputs.head? = some first →
    IsLeast {length | s.Above first length type} standing.distance

/-- The type is an interface that the inputs have in common, and no other one has a better
standing. -/
structure IsBestInterface (s : Store) (inputs : List TypeId) (type : TypeId) : Prop where
  common : s.IsCommonInterface inputs type
  unbeaten : ∃ standing, s.HasStanding inputs type standing ∧
    ∀ other, s.IsCommonInterface inputs other →
      ∃ standing', s.HasStanding inputs other standing' ∧ standing'.beats standing = false

/-- The standings of interfaces as they are computed one after the other. -/
theorem exists_ranked (votes : TypeId → Nat) {interfaces : List (TypeId × Nat)}
    (h : ∀ entry ∈ interfaces, ∃ depth, s.interfaceDepth entry.1 = .ok depth ∧
      s.HasStanding inputs entry.1 ⟨depth, votes entry.1, entry.2⟩) :
    ∃ ranked : List (TypeId × Standing),
      (interfaces.mapM fun (type, distance) => do
        return (type, (⟨← s.interfaceDepth type, votes type, distance⟩ : Standing))) =
          .ok ranked ∧
      ranked.map Prod.fst = interfaces.map Prod.fst ∧
      ∀ entry ∈ ranked, s.HasStanding inputs entry.1 entry.2 := by
  induction interfaces with
  | nil => exact ⟨[], rfl, rfl, fun _ h => nomatch h⟩
  | cons entry interfaces ih =>
    obtain ⟨hentry, hrest⟩ := List.forall_mem_cons.mp h
    obtain ⟨depth, hdepth, hstanding⟩ := hentry
    obtain ⟨ranked, hranked, hsame, hstandings⟩ := ih hrest
    refine ⟨(entry.1, ⟨depth, votes entry.1, entry.2⟩) :: ranked, ?_, ?_,
      List.forall_mem_cons.mpr ⟨hstanding, hstandings⟩⟩
    · obtain ⟨type, distance⟩ := entry
      rw [List.mapM_cons, hranked]
      dsimp only at hdepth ⊢
      rw [hdepth]
      rfl
    · rw [List.map_cons, List.map_cons, hsame]

section Interfaces

variable {first : Ancestry} {others : List Ancestry}
  (hlimits : ∀ input ∈ inputs, s.InLimits input)
  (hancestries : List.Forall₂ (fun input a => s.ancestry input = .ok a) inputs (first :: others))

include hlimits hancestries

/-- The common interfaces as they are listed. -/
theorem mem_commonInterfaces_iff :
    type ∈ ((s.commonMembers first others).filter fun (type, _) => s.isInterface type).map
      Prod.fst ↔ s.IsCommonInterface inputs type := by
  have hmap : ((s.commonMembers first others).filter fun (type, _) => s.isInterface type).map
      Prod.fst = ((s.commonMembers first others).map Prod.fst).filter s.isInterface := by
    rw [List.filter_map]
    rfl
  rw [hmap, List.mem_filter, mem_commonMembers_iff hlimits hancestries]
  exact Iff.rfl

/-- The distances of common types are those from the first input. -/
theorem isLeast_of_mem_commonMembers (hmember : (type, distance) ∈ s.commonMembers first others)
    (hhead : inputs.head? = some input) :
    IsLeast {length | s.Above input length type} distance := by
  cases hancestries with
  | cons hfirst _ =>
  cases hhead
  exact ((mem_members_iff hfirst (hlimits input List.mem_cons_self).size).mp
    (List.mem_filter.mp hmember).1).2

/-- The deepest interface is the best of the common ones, and there is none only if there are no
common ones. -/
theorem WellFormed.deepestInterface_best (hs : s.WellFormed) :
    ∃ result, s.deepestInterface (first :: others) (s.commonMembers first others) = .ok result ∧
      (result = none ↔ ∀ type, ¬ s.IsCommonInterface inputs type) ∧
      ∀ type, result = some type → s.IsBestInterface inputs type := by
  have hlisted : ∀ type, type ∈ ((s.commonMembers first others).filter fun (type, _) =>
      s.isInterface type).map Prod.fst ↔ s.IsCommonInterface inputs type := fun _ =>
    mem_commonInterfaces_iff hlimits hancestries
  have hdistances : ∀ entry ∈ (s.commonMembers first others).filter fun (type, _) =>
      s.isInterface type, ∀ input, inputs.head? = some input →
        IsLeast {length | s.Above input length entry.1} entry.2 := fun entry hentry input hhead =>
    isLeast_of_mem_commonMembers hlimits hancestries (List.mem_of_mem_filter hentry) hhead
  unfold deepestInterface
  generalize ((s.commonMembers first others).filter fun (type, _) => s.isInterface type) =
    interfaces at hlisted hdistances
  have hcandidates : (· ∈ interfaces.map Prod.fst) = s.IsCommonInterface inputs :=
    funext fun type => propext (hlisted type)
  set ballots := (first :: others).map fun a => (a, a.nearest? (interfaces.map Prod.fst))
  have hstanding : ∀ entry ∈ interfaces, ∃ depth, s.interfaceDepth entry.1 = .ok depth ∧
      s.HasStanding inputs entry.1 ⟨depth, ballots.countP fun ballot =>
        ballot.2.isSome && ballot.1.distance? entry.1 == ballot.2, entry.2⟩ := by
    intro entry hentry
    have hentry' : entry.1 ∈ interfaces.map Prod.fst := List.mem_map_of_mem hentry
    have hknown := lt_of_kind? (isInterface_iff.mp ((hlisted entry.1).mp hentry').2)
    obtain ⟨depth, hdepth⟩ := hs.answered_interfaceDepth hknown
    refine ⟨depth, hdepth, hdepth, ?_, hdistances entry hentry⟩
    rw [← hcandidates]
    exact countP_ballots hlimits hancestries hentry'
  obtain ⟨ranked, hranked, hsame, hstandings⟩ := exists_ranked (fun type => ballots.countP
    fun ballot => ballot.2.isSome && ballot.1.distance? type == ballot.2) hstanding
  refine ⟨_, bind_eq_ok.mpr ⟨ranked, hranked, rfl⟩, ?_, fun type hsome => ?_⟩
  · rw [Option.map_eq_none_iff, Standing.best?_eq_none_iff, ← List.map_eq_nil_iff (f := Prod.fst),
      hsame, List.eq_nil_iff_forall_not_mem]
    exact forall_congr' fun type => not_congr (hlisted type)
  · obtain ⟨best, hbest, rfl⟩ := Option.map_eq_some_iff.mp hsome
    obtain ⟨hmem, hunbeaten⟩ := Standing.best?_spec hbest
    refine ⟨(hlisted best.1).mp (hsame ▸ List.mem_map_of_mem hmem), best.2, hstandings best hmem, ?_⟩
    intro other hother
    obtain ⟨rival, hrival, rfl⟩ := List.mem_map.mp (hsame ▸ (hlisted other).mpr hother)
    exact ⟨rival.2, hstandings rival hrival, hunbeaten rival hrival⟩

end Interfaces

/-! ## The two procedures -/

/-- A lowest common ancestor of types that differ. If it is a class, no candidate is below it; if it
is an interface, all candidates are interfaces, and it is the best of them. -/
structure IsChosen (s : Store) (inputs : List TypeId) (type : TypeId) : Prop where
  common : s.IsCommon inputs type
  lowest : s.isInterface type = false →
    ∀ other, s.IsCommon inputs other → s.WidensTo other type → other = type
  interfaces : s.isInterface type = true →
    ∀ other, s.IsCommon inputs other → s.isInterface other = true
  best : s.isInterface type = true → s.IsBestInterface inputs type

/-- Without cycles and within the limits of walks, one of the candidates is chosen if there is any. -/
theorem WellFormed.lowestCommonOf_chosen (hs : s.WellFormed) (hacyclic : s.Acyclic)
    (hne : inputs ≠ []) (hinputs : ∀ input ∈ inputs, input < s.size)
    (hlimits : ∀ input ∈ inputs, s.InLimits input) :
    ∃ result, s.lowestCommonOf inputs = .ok result ∧
      (result = none ↔ ∀ type, ¬ s.IsCommon inputs type) ∧
      ∀ type, result = some type → s.IsChosen inputs type := by
  obtain ⟨ancestries, hancestries, hforall⟩ := exists_mapM fun input hinput => by
    obtain ⟨a, ha⟩ := hs.answered_ancestry (hinputs input hinput)
    exact ⟨a, ha, ha⟩
  cases hforall with
  | nil => exact absurd rfl hne
  | @cons input first rest others hfirst hothers =>
  have hcommon : ∀ type, type ∈ (s.commonMembers first others).map Prod.fst ↔
      s.IsCommon (input :: rest) type := fun type =>
    mem_commonMembers_iff hlimits (.cons hfirst hothers)
  obtain ⟨hsome, hnone⟩ := hs.commonClass?_spec hacyclic List.mem_cons_self
    (hlimits input List.mem_cons_self) (ancestry_sound hfirst).1 hcommon
  rw [lowestCommonOf_eq hancestries]
  cases hclass : s.commonClass? (input :: rest) first.chain (s.commonMembers first others) with
  | some type =>
    obtain ⟨htype, hkind, hlowest⟩ := hsome type hclass
    refine ⟨some type, rfl, ?_, fun other heq => ?_⟩
    · exact iff_of_false (Option.some_ne_none type) fun hall => hall type htype
    · cases heq
      exact ⟨htype, fun _ => hlowest, fun hinterface => absurd hinterface (by simp [hkind]),
        fun hinterface => absurd hinterface (by simp [hkind])⟩
  | none =>
    -- where no class is taken, all candidates are interfaces
    have hinterface := hnone hclass
    obtain ⟨result, hresult, hempty, hbest⟩ :=
      hs.deepestInterface_best hlimits (.cons hfirst hothers)
    refine ⟨result, hresult, hempty.trans (forall_congr' fun type => ?_), fun type heq => ?_⟩
    · exact not_congr (and_iff_left_of_imp (hinterface type))
    · have htype := hbest type heq
      refine ⟨htype.common.1, fun hkind => ?_, fun _ => hinterface, fun _ => htype⟩
      rw [htype.common.2] at hkind
      cases hkind

/-- Equal inputs are their own lowest common ancestor, and for others one is chosen. -/
theorem WellFormed.lowestCommonAncestor_chosen (hs : s.WellFormed) (hacyclic : s.Acyclic)
    (hne : inputs ≠ []) (hinputs : ∀ input ∈ inputs, input < s.size)
    (hlimits : ∀ input ∈ inputs, s.InLimits input) :
    (∃ type, (∀ input ∈ inputs, input = type) ∧
      s.lowestCommonAncestor inputs = .ok (some type)) ∨
    ((¬ ∃ type, ∀ input ∈ inputs, input = type) ∧
      ∃ result, s.lowestCommonAncestor inputs = .ok result ∧
        (result = none ↔ ∀ type, ¬ s.IsCommon inputs type) ∧
        ∀ type, result = some type → s.IsChosen inputs type) := by
  cases inputs with
  | nil => exact absurd rfl hne
  | cons first rest =>
  rw [lowestCommonAncestor_eq hinputs]
  by_cases hequal : rest.all (· == first) = true
  · rw [if_pos hequal]
    exact .inl ⟨first, List.forall_mem_cons.mpr ⟨rfl, by simpa using hequal⟩, rfl⟩
  · rw [if_neg hequal]
    refine .inr ⟨?_, hs.lowestCommonOf_chosen hacyclic hne hinputs hlimits⟩
    rintro ⟨type, hall⟩
    obtain ⟨rfl, hrest⟩ := List.forall_mem_cons.mp hall
    exact hequal (by simpa using hrest)

end Store

end NominalTypes
