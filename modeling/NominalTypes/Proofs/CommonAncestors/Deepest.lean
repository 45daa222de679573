import NominalTypes.Proofs.Building.Reachable
import NominalTypes.Proofs.CommonAncestors.Standings

/-!
# Ties between the deepest interfaces

A lowest common ancestor that is an interface is one of the deepest common interfaces, and of these
the one with the most votes. Votes are counted against all common interfaces, the shallower ones
too. An input to which a shallower one is nearer than all the deepest ones gives its vote to none of
them, and this is all that the shallower ones do: the votes are those that the other inputs give
among the deepest interfaces alone.

- `Standing.best?_first`: the best entry is the first of the best.
- `Ancestry.votes`, `Ancestry.Prefers`: votes against some rivals, and what decides by them.
- `Store.deepestOf`, `Store.seesDeepest`: the deepest interfaces, and the inputs that have one of
  them nearest.
- `Store.votes_eq_votes_deepestOf`: what the shallower interfaces do to the votes.
- `Store.Reachable.lowestCommonAncestor_deepest`: the choice, in every reachable store.
-/

namespace NominalTypes

/-! ## The first of the best -/

namespace Standing

variable {a b c : Standing}

theorem beats_trans (hab : a.beats b = true) (hbc : b.beats c = true) : a.beats c = true := by
  simp only [beats, Bool.or_eq_true, Bool.and_eq_true, decide_eq_true_eq, beq_iff_eq] at *
  omega

/-- The best entry beats all that come before it, and none that comes after it beats the best. -/
theorem best?_first : ∀ {entries : List (TypeId × Standing)} {best : TypeId × Standing},
    best? entries = some best → ∃ before after, entries = before ++ best :: after ∧
      (∀ entry ∈ before, best.2.beats entry.2 = true) ∧
      ∀ entry ∈ after, entry.2.beats best.2 = false
  | [], _, h => nomatch (h : none = some _)
  | [entry], best, h => by
    cases h
    exact ⟨[], [], rfl, List.forall_mem_nil _, List.forall_mem_nil _⟩
  | entry :: next :: entries, best, h => by
    rw [best?_cons_cons] at h
    cases hbeats : next.2.beats entry.2 with
    | true =>
      rw [hbeats, if_pos rfl] at h
      obtain ⟨before, after, hentries, hbefore, hafter⟩ := best?_first h
      refine ⟨entry :: before, after, congrArg (entry :: ·) hentries,
        List.forall_mem_cons.mpr ⟨?_, hbefore⟩, hafter⟩
      -- the best entry is the next one or beats it
      cases before with
      | nil =>
        cases hentries
        exact hbeats
      | cons _ _ =>
        cases hentries
        exact beats_trans (hbefore next List.mem_cons_self) hbeats
    | false =>
      rw [hbeats, if_neg Bool.false_ne_true] at h
      obtain ⟨before, after, hentries, hbefore, hafter⟩ := best?_first h
      cases before with
      | nil =>
        cases hentries
        exact ⟨[], next :: entries, rfl, List.forall_mem_nil _,
          List.forall_mem_cons.mpr ⟨hbeats, hafter⟩⟩
      | cons _ before =>
        cases hentries
        obtain ⟨hentry, hbefore⟩ := List.forall_mem_cons.mp hbefore
        refine ⟨entry :: next :: before, after, rfl,
          List.forall_mem_cons.mpr ⟨hentry, List.forall_mem_cons.mpr ⟨?_, hbefore⟩⟩, hafter⟩
        by_contra hnot
        have hnot' := not_beats_trans (Bool.eq_false_of_not_eq_true hnot) hbeats
        rw [hentry] at hnot'
        cases hnot'

end Standing

/-! ## Votes -/

namespace Ancestry

variable {a first : Ancestry} {type other rival : TypeId} {rivals : List TypeId} {distance : Nat}

/-- The type is found, and the other one is not found nearer. -/
def isAsNear (a : Ancestry) (type other : TypeId) : Bool :=
  (a.distance? type).any fun distance => (a.distance? other).all (distance ≤ ·)

theorem isAsNear_iff : a.isAsNear type other = true ↔ ∃ distance, a.distance? type = some distance ∧
    ∀ length, a.distance? other = some length → distance ≤ length := by
  simp [isAsNear, Option.any_eq_true, Option.all_eq_true]

theorem isAsNear_trans (h : a.isAsNear type other = true) (h' : a.isAsNear other rival = true) :
    a.isAsNear type rival = true := by
  obtain ⟨distance, hdistance, hle⟩ := isAsNear_iff.mp h
  obtain ⟨distance', hdistance', hle'⟩ := isAsNear_iff.mp h'
  exact isAsNear_iff.mpr ⟨distance, hdistance, fun length hlength =>
    (hle distance' hdistance').trans (hle' length hlength)⟩

/-- The number of ancestries in which none of the rivals is nearer than the type. -/
def votes (ancestries : List Ancestry) (rivals : List TypeId) (type : TypeId) : Nat :=
  ancestries.countP fun a => rivals.all (a.isAsNear type)

/-- An ancestry votes for the rivals that are nearest in it. -/
theorem ballot_eq (htype : type ∈ rivals) :
    ((a.nearest? rivals).isSome && a.distance? type == a.nearest? rivals) =
      rivals.all (a.isAsNear type) := by
  rw [Bool.eq_iff_iff, Bool.and_eq_true, beq_iff_eq, Option.isSome_iff_exists, List.all_eq_true]
  constructor
  · rintro ⟨⟨distance, hnearest⟩, heq⟩ rival hrival
    rw [hnearest] at heq
    exact isAsNear_iff.mpr ⟨distance, heq, (Store.nearest?_eq_some_iff.mp hnearest).2 rival hrival⟩
  · intro hall
    obtain ⟨distance, hdistance, -⟩ := isAsNear_iff.mp (hall type htype)
    have hnearest : a.nearest? rivals = some distance := by
      refine Store.nearest?_eq_some_iff.mpr
        ⟨⟨type, htype, hdistance⟩, fun rival hrival length hlength => ?_⟩
      obtain ⟨distance', hdistance', hle⟩ := isAsNear_iff.mp (hall rival hrival)
      rw [hdistance] at hdistance'
      cases hdistance'
      exact hle length hlength
    exact ⟨⟨distance, hnearest⟩, hdistance.trans hnearest.symm⟩

/-- The type comes before the other one for its votes, else because it is nearer in the first
ancestry, else because it is listed earlier there. -/
def Prefers (first : Ancestry) (votes : TypeId → Nat) (type other : TypeId) : Prop :=
  votes other < votes type ∨ votes other = votes type ∧
    ∃ distance distance', first.distance? type = some distance ∧
      first.distance? other = some distance' ∧
      (distance < distance' ∨ distance = distance' ∧ [type, other].Sublist first.types)

end Ancestry

namespace Store

variable {s : Store} {type other member : TypeId} {inputs interfaces : List TypeId}
  {first : Ancestry} {others ancestries : List Ancestry}

/-! ## The deepest interfaces -/

/-- The common interfaces in the order of the first ancestry. -/
def commonInterfaces (s : Store) (first : Ancestry) (others : List Ancestry) : List TypeId :=
  ((s.commonMembers first others).filter fun (type, _) => s.isInterface type).map Prod.fst

/-- The depth of an interface; a foreign handle has none. -/
def depthOf (s : Store) (interface : TypeId) : Nat :=
  match s.interfaceDepth interface with
  | .ok depth => depth
  | .error _ => 0

theorem depthOf_eq {depth : Nat} (h : s.interfaceDepth type = .ok depth) :
    s.depthOf type = depth := by
  rw [depthOf, h]

/-- The interfaces than which none is deeper. -/
def deepestOf (s : Store) (interfaces : List TypeId) : List TypeId :=
  interfaces.filter fun type => interfaces.all fun other => decide (s.depthOf other ≤ s.depthOf type)

theorem mem_deepestOf : type ∈ s.deepestOf interfaces ↔
    type ∈ interfaces ∧ ∀ other ∈ interfaces, s.depthOf other ≤ s.depthOf type := by
  simp [deepestOf]

/-! ## What shallower interfaces do -/

/-- None of the interfaces is nearer than all the deepest of them. -/
def seesDeepest (s : Store) (interfaces : List TypeId) (a : Ancestry) : Bool :=
  interfaces.all fun other => (s.deepestOf interfaces).any fun member => a.isAsNear member other

/-- A deepest interface is nearest among all interfaces exactly if it is nearest among the deepest,
and none of the others is nearer than all of these. -/
theorem all_isAsNear_iff {a : Ancestry} (hmember : member ∈ s.deepestOf interfaces) :
    interfaces.all (a.isAsNear member) = true ↔
      (s.deepestOf interfaces).all (a.isAsNear member) = true ∧
        s.seesDeepest interfaces a = true := by
  simp only [seesDeepest, List.all_eq_true, List.any_eq_true]
  constructor
  · intro hall
    exact ⟨fun rival hrival => hall rival (mem_deepestOf.mp hrival).1,
      fun other hother => ⟨member, hmember, hall other hother⟩⟩
  · rintro ⟨hdeepest, hseen⟩ other hother
    obtain ⟨rival, hrival, hnear⟩ := hseen other hother
    exact Ancestry.isAsNear_trans (hdeepest rival hrival) hnear

/-- Votes against all interfaces are the votes among the deepest, of those inputs to which no other
interface is nearer than all of these. -/
theorem votes_eq_votes_deepestOf (hmember : member ∈ s.deepestOf interfaces) :
    Ancestry.votes ancestries interfaces member =
      Ancestry.votes (ancestries.filter (s.seesDeepest interfaces)) (s.deepestOf interfaces)
        member := by
  rw [Ancestry.votes, Ancestry.votes, List.countP_filter]
  refine List.countP_congr fun a _ => ?_
  rw [Bool.and_eq_true, all_isAsNear_iff hmember]

/-! ## The choice -/

/-- Entries that are computed one after the other, each with an answer. -/
theorem mapM_eq_ok_map {α β : Type} {f : α → Except RelationError β} {g : α → β} {as : List α}
    (h : ∀ a ∈ as, f a = .ok (g a)) : as.mapM f = .ok (as.map g) := by
  induction as with
  | nil => rfl
  | cons a as ih =>
    obtain ⟨hhead, htail⟩ := List.forall_mem_cons.mp h
    rw [List.mapM_cons, hhead, ih htail]
    rfl

/-- The distances of an ancestry in which every type is listed once. -/
theorem distance?_of_mem {a : Ancestry} (hnodup : a.types.Nodup) {distance : Nat}
    (h : (type, distance) ∈ a.members) : a.distance? type = some distance := by
  have hlisted : (a.distance? type).isSome = true :=
    Ancestry.contains_iff.mpr (List.mem_map_of_mem h)
  obtain ⟨nearer, hnearer⟩ := Option.isSome_iff_exists.mp hlisted
  obtain ⟨before, after, heq, -⟩ := List.lookup_eq_some_iff.mp hnearer
  have hmember : (type, nearer) ∈ a.members := heq ▸ List.mem_append_right _ List.mem_cons_self
  cases List.inj_on_of_nodup_map hnodup hmember h rfl
  exact hnearer

/-- What decides for a common interface, by votes against all of them. -/
def standingOf (s : Store) (ancestries : List Ancestry) (interfaces : List TypeId)
    (entry : TypeId × Nat) : Standing :=
  ⟨s.depthOf entry.1, Ancestry.votes ancestries interfaces entry.1, entry.2⟩

/-- The deepest interface is the first of the best. -/
theorem deepestInterface_eq
    (hanswered : ∀ type ∈ s.commonInterfaces first others, Answered (s.interfaceDepth type)) :
    s.deepestInterface (first :: others) (s.commonMembers first others) =
      .ok ((Standing.best? (((s.commonMembers first others).filter fun (type, _) =>
        s.isInterface type).map fun entry => (entry.1, s.standingOf (first :: others)
          (s.commonInterfaces first others) entry))).map Prod.fst) := by
  unfold deepestInterface
  refine bind_eq_ok.mpr ⟨_, mapM_eq_ok_map fun entry hentry => ?_, rfl⟩
  have hlisted : entry.1 ∈ s.commonInterfaces first others := List.mem_map_of_mem hentry
  obtain ⟨depth, hdepth⟩ := hanswered entry.1 hlisted
  have hvotes : (((first :: others).map fun a =>
      (a, a.nearest? (s.commonInterfaces first others))).countP fun ballot =>
        ballot.2.isSome && ballot.1.distance? entry.1 == ballot.2) =
          Ancestry.votes (first :: others) (s.commonInterfaces first others) entry.1 := by
    rw [List.countP_map]
    exact List.countP_congr fun a _ => by rw [Function.comp_apply, Ancestry.ballot_eq hlisted]
  rw [standingOf, depthOf_eq hdepth, ← hvotes]
  dsimp only
  rw [hdepth]
  rfl

section Choice

variable {entry rival : TypeId × Nat}

/-- Of two equally deep interfaces the one that beats the other is preferred. -/
theorem prefers_of_beats (hdepth : s.depthOf rival.1 = s.depthOf entry.1)
    (hentry : first.distance? entry.1 = some entry.2)
    (hrival : first.distance? rival.1 = some rival.2)
    (h : (s.standingOf ancestries interfaces entry).beats
      (s.standingOf ancestries interfaces rival) = true) :
    first.Prefers (Ancestry.votes ancestries interfaces) entry.1 rival.1 := by
  simp only [standingOf, Standing.beats, hdepth, Bool.or_eq_true, Bool.and_eq_true,
    decide_eq_true_eq, beq_iff_eq, Nat.lt_irrefl, false_or, true_and] at h
  rcases h with hvotes | ⟨hvotes, hnearer⟩
  · exact .inl hvotes
  · exact .inr ⟨hvotes.symm, entry.2, rival.2, hentry, hrival, .inl hnearer⟩

/-- Of two equally deep interfaces the one that is listed first is preferred if it is not beaten. -/
theorem prefers_of_not_beats (hdepth : s.depthOf rival.1 = s.depthOf entry.1)
    (hentry : first.distance? entry.1 = some entry.2)
    (hrival : first.distance? rival.1 = some rival.2)
    (hlisted : [entry.1, rival.1].Sublist first.types)
    (h : (s.standingOf ancestries interfaces rival).beats
      (s.standingOf ancestries interfaces entry) = false) :
    first.Prefers (Ancestry.votes ancestries interfaces) entry.1 rival.1 := by
  simp only [standingOf, Standing.beats, hdepth, Bool.or_eq_false_iff, Bool.and_eq_false_iff,
    decide_eq_false_iff_not, beq_eq_false_iff_ne, Nat.lt_irrefl, not_false_iff, true_and,
    ne_eq, not_true_eq_false, false_or, Nat.not_lt] at h
  obtain ⟨hvotes, hnearer⟩ := h
  rcases Nat.lt_or_eq_of_le hvotes with hfewer | hequal
  · exact .inl hfewer
  · have hle := hnearer.resolve_left (not_not_intro hequal)
    refine .inr ⟨hequal, entry.2, rival.2, hentry, hrival, ?_⟩
    exact (Nat.lt_or_eq_of_le hle).imp_right fun hdistance => ⟨hdistance, hlisted⟩

/-- The type is one of the deepest interfaces, and by the votes of some ancestries against some rivals
it is preferred to the other ones. -/
structure IsPreferred (s : Store) (first : Ancestry) (interfaces : List TypeId)
    (voters : List Ancestry) (rivals : List TypeId) (type : TypeId) : Prop where
  deepest : type ∈ s.deepestOf interfaces
  preferred : ∀ other ∈ s.deepestOf interfaces, other ≠ type →
    first.Prefers (Ancestry.votes voters rivals) type other

/-- The entries around the one that is taken: it beats the earlier ones, and no later one beats
it. -/
theorem exists_split_of_deepestInterface
    (hanswered : ∀ type ∈ s.commonInterfaces first others, Answered (s.interfaceDepth type))
    (h : s.deepestInterface (first :: others) (s.commonMembers first others) = .ok (some type)) :
    ∃ earlier entry later, ((s.commonMembers first others).filter fun (type, _) =>
        s.isInterface type) = earlier ++ entry :: later ∧ entry.1 = type ∧
      (∀ rival ∈ earlier, (s.standingOf (first :: others) (s.commonInterfaces first others)
        entry).beats (s.standingOf (first :: others) (s.commonInterfaces first others) rival) =
          true) ∧
      ∀ rival ∈ later, (s.standingOf (first :: others) (s.commonInterfaces first others)
        rival).beats (s.standingOf (first :: others) (s.commonInterfaces first others) entry) =
          false := by
  rw [deepestInterface_eq hanswered, Except.ok.injEq, Option.map_eq_some_iff] at h
  obtain ⟨best, hbest, rfl⟩ := h
  obtain ⟨before, after, hsplit, hbefore, hafter⟩ := Standing.best?_first hbest
  obtain ⟨earlier, rest, hentries, rfl, hrest⟩ := List.map_eq_append_iff.mp hsplit
  obtain ⟨entry, later, rfl, rfl, rfl⟩ := List.map_eq_cons_iff.mp hrest
  exact ⟨earlier, entry, later, hentries, rfl,
    fun rival hrival => hbefore _ (List.mem_map_of_mem hrival),
    fun rival hrival => hafter _ (List.mem_map_of_mem hrival)⟩

/-- The deepest interface that is taken is preferred by votes against all common interfaces. -/
theorem deepestInterface_isPreferred (hnodup : first.types.Nodup)
    (hanswered : ∀ type ∈ s.commonInterfaces first others, Answered (s.interfaceDepth type))
    (h : s.deepestInterface (first :: others) (s.commonMembers first others) = .ok (some type)) :
    s.IsPreferred first (s.commonInterfaces first others) (first :: others)
      (s.commonInterfaces first others) type := by
  obtain ⟨earlier, entry, later, hentries, rfl, hearlier, hlater⟩ :=
    exists_split_of_deepestInterface hanswered h
  set interfaces := s.commonInterfaces first others with hinterfaces
  have hlisted : interfaces = (earlier ++ entry :: later).map Prod.fst := by
    rw [hinterfaces, commonInterfaces, hentries]
  have hmembers : (earlier ++ entry :: later).Sublist first.members :=
    hentries ▸ List.filter_sublist.trans List.filter_sublist
  have hdistance : ∀ rival ∈ earlier ++ entry :: later, first.distance? rival.1 = some rival.2 :=
    fun rival hrival => distance?_of_mem hnodup (hmembers.subset hrival)
  have hentry : entry ∈ earlier ++ entry :: later := List.mem_append_right _ List.mem_cons_self
  have htype : entry.1 ∈ interfaces := hlisted ▸ List.mem_map_of_mem hentry
  have hdeepest : ∀ other ∈ interfaces, s.depthOf other ≤ s.depthOf entry.1 := by
    intro other hother
    rw [hlisted] at hother
    obtain ⟨rival, hrival, rfl⟩ := List.mem_map.mp hother
    rcases List.mem_append.mp hrival with hrival | hrival
    · exact Standing.depth_le_of_not_beats (Standing.beats_asymm (hearlier rival hrival))
    rcases List.mem_cons.mp hrival with rfl | hrival
    · exact Nat.le_refl _
    · exact Standing.depth_le_of_not_beats (hlater rival hrival)
  refine ⟨mem_deepestOf.mpr ⟨htype, hdeepest⟩, fun other hother hne => ?_⟩
  obtain ⟨hcommon, hdepth⟩ := mem_deepestOf.mp hother
  have hequal := Nat.le_antisymm (hdeepest other hcommon) (hdepth entry.1 htype)
  rw [hlisted] at hcommon
  obtain ⟨rival, hrival, rfl⟩ := List.mem_map.mp hcommon
  have hrivalDistance := hdistance rival hrival
  rcases List.mem_append.mp hrival with hrival | hrival
  · exact prefers_of_beats hequal (hdistance entry hentry) hrivalDistance (hearlier rival hrival)
  rcases List.mem_cons.mp hrival with rfl | hrival
  · exact absurd rfl hne
  · have hpair : [entry, rival].Sublist (earlier ++ entry :: later) :=
      (List.Sublist.cons_cons entry (List.singleton_sublist.mpr hrival)).trans
        (List.sublist_append_right earlier _)
    exact prefers_of_not_beats hequal (hdistance entry hentry) hrivalDistance
      ((hpair.trans hmembers).map Prod.fst) (hlater rival hrival)

/-- Instead of votes against all interfaces those among the deepest count, of the ancestries in which
no other interface is nearer than all of these. -/
theorem IsPreferred.amongDeepest (h : s.IsPreferred first interfaces ancestries interfaces type) :
    s.IsPreferred first interfaces (ancestries.filter (s.seesDeepest interfaces))
      (s.deepestOf interfaces) type where
  deepest := h.deepest
  preferred other hother hne := by
    have hprefers := h.preferred other hother hne
    unfold Ancestry.Prefers at hprefers ⊢
    rwa [votes_eq_votes_deepestOf hother, votes_eq_votes_deepestOf h.deepest] at hprefers

end Choice

/-- A class that is taken is no interface. -/
theorem isInterface_of_commonClass? {chain : List TypeId} {common : List (TypeId × Nat)}
    (h : s.commonClass? inputs chain common = some type) : s.isInterface type = false := by
  unfold commonClass? at h
  split at h
  · have hkept := List.find?_some h
    rw [Bool.and_eq_true, Bool.not_eq_true'] at hkept
    exact hkept.2
  · cases h

/-- Of inputs that differ, a common ancestor that is an interface is one of the deepest common
interfaces, and among these the first by votes, by nearness to the first input and by the order of
its ancestry. Only the inputs to which no common interface is nearer than all the deepest ones vote,
so the shallower ones do not matter where there is no other input. -/
theorem Reachable.lowestCommonAncestor_deepest (hs : s.Reachable)
    (hinputs : ∀ input ∈ inputs, input < s.size)
    (hdiffer : ¬ ∃ input, ∀ other ∈ inputs, other = input)
    (h : s.lowestCommonAncestor inputs = .ok (some type)) (hinterface : s.isInterface type = true) :
    ∃ first others interfaces, inputs.mapM s.ancestry = .ok (first :: others) ∧
      interfaces = s.commonInterfaces first others ∧
      s.IsPreferred first interfaces ((first :: others).filter (s.seesDeepest interfaces))
        (s.deepestOf interfaces) type ∧
      ((∀ a ∈ first :: others, s.seesDeepest interfaces a = true) →
        s.IsPreferred first interfaces (first :: others) (s.deepestOf interfaces) type) := by
  have hwf := hs.coherent.wellFormed
  obtain ⟨ancestries, hancestries, hforall⟩ := exists_mapM fun input hinput => by
    obtain ⟨a, ha⟩ := hwf.answered_ancestry (hinputs input hinput)
    exact ⟨a, ha, ha⟩
  cases hforall with
  | nil => exact absurd ⟨type, fun _ h => nomatch h⟩ hdiffer
  | @cons input first rest others hfirst hothers =>
  have hunequal : ¬ rest.all (· == input) = true := fun hall =>
    hdiffer ⟨input, List.forall_mem_cons.mpr ⟨rfl, by simpa using hall⟩⟩
  rw [lowestCommonAncestor_eq hinputs, if_neg hunequal, lowestCommonOf_eq hancestries] at h
  cases hclass : s.commonClass? (input :: rest) first.chain (s.commonMembers first others) with
  | some other =>
    rw [hclass] at h
    cases h
    have hkind := isInterface_of_commonClass? hclass
    rw [hinterface] at hkind
    cases hkind
  | none =>
    rw [hclass] at h
    have hknown := hwf.commonMembers_lt hinputs hancestries
    have hanswered : ∀ type ∈ s.commonInterfaces first others, Answered (s.interfaceDepth type) := by
      intro type htype
      obtain ⟨entry, hentry, rfl⟩ := List.mem_map.mp htype
      exact hwf.answered_interfaceDepth (hknown entry (List.mem_of_mem_filter hentry))
    have hpreferred := deepestInterface_isPreferred (ancestry_nodup hfirst) hanswered h
    refine ⟨first, others, _, hancestries, rfl, hpreferred.amongDeepest, fun hall => ?_⟩
    rw [← List.filter_eq_self.mpr hall]
    exact hpreferred.amongDeepest

/-! ## An interface that is nearer -/

/-- The interfaces `X` and `Y` with the base interface `Z`, and two classes `A` and `B` with all
three. From `A` it is one step to `Z`, two to `X` and three to `Y`; from `B` it is one step to `Y`
and two to `X` and to `Z`. -/
def shadowed : Store :=
  Store.empty.afterAll [
    .declare (.plain .interface "Z"),
    .declare { Declaration.plain .interface "X" with interfaces := ["Z"] },
    .declare { Declaration.plain .interface "Y" with interfaces := ["Z"] },
    .declare { Declaration.plain .classType "A2" with interfaces := ["Y"] },
    .declare { Declaration.plain .classType "A1" with base := some "A2", interfaces := ["X"] },
    .declare { Declaration.plain .classType "A" with base := some "A1", interfaces := ["Z"] },
    .declare { Declaration.plain .classType "B1" with interfaces := ["X"] },
    .declare { Declaration.plain .classType "B" with base := some "B1", interfaces := ["Y"] }]

theorem reachable_shadowed : shadowed.Reachable := Reachable.empty.afterAll _

theorem differ_shadowed : ¬ ∃ input, ∀ other ∈ [5, 7], other = input := by
  rintro ⟨input, hall⟩
  have hfirst := hall 5 (by simp)
  have hsecond := hall 7 (by simp)
  omega

/-- `Z` is nearer to `A` than both `X` and `Y`, so `B` alone votes, and it is nearest to `Y`. -/
theorem isPreferred_shadowed : shadowed.lowestCommonAncestor [5, 7] = .ok (some 2) ∧
    ∃ first others interfaces, [5, 7].mapM shadowed.ancestry = .ok (first :: others) ∧
      shadowed.IsPreferred first interfaces
        ((first :: others).filter (shadowed.seesDeepest interfaces))
        (shadowed.deepestOf interfaces) 2 := by
  have hanswer : shadowed.lowestCommonAncestor [5, 7] = .ok (some 2) := by decide +kernel
  obtain ⟨first, others, interfaces, hancestries, -, hpreferred, -⟩ :=
    reachable_shadowed.lowestCommonAncestor_deepest (by decide +kernel) differ_shadowed hanswer
      (by decide +kernel)
  exact ⟨hanswer, first, others, interfaces, hancestries, hpreferred⟩

/-- By votes among `X` and `Y` alone it is a tie, and `X` is nearer to the first input. -/
theorem not_isPreferred_shadowed : ¬ ∀ (s : Store) (inputs : List TypeId) (type : TypeId),
    s.Reachable → (∀ input ∈ inputs, input < s.size) →
    (¬ ∃ input, ∀ other ∈ inputs, other = input) →
    s.lowestCommonAncestor inputs = .ok (some type) → s.isInterface type = true →
    ∃ first others interfaces, inputs.mapM s.ancestry = .ok (first :: others) ∧
      interfaces = s.commonInterfaces first others ∧
      s.IsPreferred first interfaces (first :: others) (s.deepestOf interfaces) type := by
  intro h
  obtain ⟨first, others, _, hancestries, rfl, hpreferred⟩ := h shadowed [5, 7] 2
    reachable_shadowed (by decide +kernel) differ_shadowed (by decide +kernel) (by decide +kernel)
  have hcomputed : ([5, 7].mapM shadowed.ancestry).map (fun ancestries =>
      let first := ancestries.headD ⟨[], []⟩
      let deepest := shadowed.deepestOf (shadowed.commonInterfaces first ancestries.tail)
      (deepest, [2, 1].map fun type =>
        (Ancestry.votes ancestries deepest type, first.distance? type))) =
      .ok ([1, 2], [(1, some 3), (1, some 2)]) := by decide +kernel
  rw [hancestries] at hcomputed
  simp only [Except.map, Except.ok.injEq, Prod.mk.injEq, List.map_cons, List.map_nil,
    List.headD_cons, List.tail_cons, List.cons.injEq, and_true] at hcomputed
  obtain ⟨hdeepest, ⟨hvotes, hdistance⟩, hvotes', hdistance'⟩ := hcomputed
  rw [hdeepest] at hvotes hvotes'
  have hother : 1 ∈ shadowed.deepestOf (shadowed.commonInterfaces first others) := by
    rw [hdeepest]
    exact List.mem_cons_self
  have hprefers := hpreferred.preferred 1 hother (by decide)
  rw [hdeepest, Ancestry.Prefers, hvotes, hvotes', hdistance, hdistance'] at hprefers
  rcases hprefers with hmore | ⟨-, _, _, ⟨⟩, ⟨⟩, hnearer | ⟨hequal, -⟩⟩
  all_goals omega

end Store

end NominalTypes
