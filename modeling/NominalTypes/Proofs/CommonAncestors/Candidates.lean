import NominalTypes.Proofs.Acyclicity
import NominalTypes.Proofs.Hierarchy.Reach
import NominalTypes.Proofs.Totality

/-!
# Candidates for common ancestors

The candidates are the types that all inputs widen to, but for the universal root. On a base chain
all later types are above the earlier ones, so in a hierarchy without cycles no candidate that is a
class is below the first common class. A common class is on the chain of every input, which is why
the interfaces are the only candidates where the chain of the first input has none.

- `Standing.best?_spec`: no entry beats the best one.
- `Store.IsCommon`, `Store.mem_commonMembers_iff`: the candidates.
- `Store.baseChainFrom_pairwise`, `Store.WellFormed.commonClass?_spec`: common classes.
- `Store.lowestCommonOf_eq`: how one of the candidates is chosen.
-/

namespace NominalTypes

/-! ## The best entry -/

namespace Standing

variable {a b c : Standing}

theorem beats_asymm (h : a.beats b = true) : b.beats a = false := by
  simp only [beats, Bool.or_eq_true, Bool.and_eq_true, decide_eq_true_eq, beq_iff_eq] at h
  simp only [beats, Bool.or_eq_false_iff, Bool.and_eq_false_iff, decide_eq_false_iff_not,
    beq_eq_false_iff_ne]
  omega

theorem not_beats_trans (hab : a.beats b = false) (hbc : b.beats c = false) :
    a.beats c = false := by
  simp only [beats, Bool.or_eq_false_iff, Bool.and_eq_false_iff, decide_eq_false_iff_not,
    beq_eq_false_iff_ne] at *
  omega

theorem depth_le_of_not_beats (h : a.beats b = false) : a.depth ≤ b.depth := by
  simp only [beats, Bool.or_eq_false_iff, decide_eq_false_iff_not] at h
  exact Nat.le_of_not_lt h.1

/-- Of the first two entries the better one is kept. -/
theorem best?_cons_cons (entry next : TypeId × Standing) (entries : List (TypeId × Standing)) :
    best? (entry :: next :: entries) =
      best? ((if next.2.beats entry.2 then next else entry) :: entries) := rfl

theorem best?_eq_none_iff {entries : List (TypeId × Standing)} :
    best? entries = none ↔ entries = [] := by
  cases entries with
  | nil => exact iff_of_true rfl rfl
  | cons entry entries => exact iff_of_false (Option.some_ne_none _) (List.cons_ne_nil _ _)

/-- No entry beats the best one. -/
theorem best?_spec : ∀ {entries : List (TypeId × Standing)} {best : TypeId × Standing},
    best? entries = some best →
      best ∈ entries ∧ ∀ entry ∈ entries, entry.2.beats best.2 = false
  | [], _, h => nomatch (h : none = some _)
  | [entry], best, h => by
    cases h
    refine ⟨List.mem_cons_self, List.forall_mem_singleton.mpr ?_⟩
    simp [beats]
  | entry :: next :: entries, best, h => by
    rw [best?_cons_cons] at h
    cases hbeats : next.2.beats entry.2 with
    | true =>
      rw [hbeats, if_pos rfl] at h
      obtain ⟨hmem, hbest⟩ := best?_spec h
      refine ⟨List.mem_cons_of_mem _ hmem, List.forall_mem_cons.mpr ⟨?_, hbest⟩⟩
      exact not_beats_trans (beats_asymm hbeats) (hbest next List.mem_cons_self)
    | false =>
      rw [hbeats, if_neg Bool.false_ne_true] at h
      obtain ⟨hmem, hbest⟩ := best?_spec h
      obtain ⟨hentry, hrest⟩ := List.forall_mem_cons.mp hbest
      refine ⟨?_, List.forall_mem_cons.mpr ⟨hentry, List.forall_mem_cons.mpr ⟨?_, hrest⟩⟩⟩
      · rcases List.mem_cons.mp hmem with rfl | hmem
        · exact List.mem_cons_self
        · exact List.mem_cons_of_mem _ (List.mem_cons_of_mem _ hmem)
      · exact not_beats_trans hbeats hentry

end Standing

namespace Store

variable {s : Store} {type other : TypeId} {inputs : List TypeId}

/-! ## Candidates -/

/-- All inputs can be widened to the type, and it is not the universal root. -/
structure IsCommon (s : Store) (inputs : List TypeId) (type : TypeId) : Prop where
  widens : ∀ input ∈ inputs, s.WidensTo input type
  not_root : s.isRoot type = false

theorem IsCommon.lt_size (h : s.IsCommon inputs type) (hs : s.WellFormed) (hne : inputs ≠ [])
    (hinputs : ∀ input ∈ inputs, input < s.size) : type < s.size := by
  obtain ⟨input, hinput⟩ := List.exists_mem_of_ne_nil inputs hne
  exact (h.widens input hinput).lt_size hs (hinputs input hinput)

/-- Where no limit hides anything, every type that the inputs have in common is a candidate. -/
theorem mem_commonMembers_iff {first : Ancestry} {others : List Ancestry}
    (hlimits : ∀ input ∈ inputs, s.InLimits input)
    (hancestries : List.Forall₂ (fun input a => s.ancestry input = .ok a) inputs
      (first :: others)) :
    type ∈ (s.commonMembers first others).map Prod.fst ↔ s.IsCommon inputs type := by
  cases hancestries with
  | @cons input _ rest _ hfirst hothers =>
  obtain ⟨hinput, hrest⟩ := List.forall_mem_cons.mp hlimits
  have hcontained : others.all (·.contains type) = true ↔ ∀ x ∈ rest, s.WidensTo x type := by
    rw [List.all_eq_true]
    clear hlimits
    induction hothers with
    | nil => exact iff_of_true (fun _ h => nomatch h) (fun _ h => nomatch h)
    | cons ha _ ih =>
      obtain ⟨hhead, htail⟩ := List.forall_mem_cons.mp hrest
      rw [List.forall_mem_cons, List.forall_mem_cons, hhead.contains_iff ha, ih htail]
  have hmember : type ∈ (s.commonMembers first others).map Prod.fst ↔
      type ∈ first.types ∧ s.isRoot type = false ∧ others.all (·.contains type) = true := by
    simp [commonMembers, Ancestry.types, List.mem_map, List.mem_filter]
  rw [hmember, hcontained, ← Ancestry.contains_iff, hinput.contains_iff hfirst]
  constructor
  · rintro ⟨hwidens, hroot, hall⟩
    exact ⟨List.forall_mem_cons.mpr ⟨hwidens, hall⟩, hroot⟩
  · rintro ⟨hall, hroot⟩
    obtain ⟨hwidens, hall⟩ := List.forall_mem_cons.mp hall
    exact ⟨hwidens, hroot, hall⟩

/-! ## Base chains -/

/-- Earlier types on a base chain widen to the later ones. -/
theorem baseChainFrom_pairwise (length : Nat) :
    ∀ {seen : List TypeId} {type : TypeId} {chain : List TypeId},
      s.baseChainFrom length seen type = .ok chain → chain.Pairwise s.WidensTo := by
  induction length with
  | zero =>
    intro seen type chain hchain
    cases hchain
    exact .nil
  | succ length ih =>
    intro seen type chain hchain
    by_cases hseen : type ∈ seen
    · rw [baseChainFrom, if_pos hseen] at hchain
      cases hchain
      exact .nil
    obtain ⟨d, hd, ⟨-, rfl⟩ | ⟨base, rest, hbase, hrest, rfl⟩⟩ := baseChainFrom_cases hseen hchain
    · exact List.pairwise_singleton _ _
    refine List.pairwise_cons.mpr ⟨fun upper hupper => ?_, ih hrest⟩
    obtain ⟨distance, -, hpath⟩ := exists_baseAbove_of_mem_from length hrest hupper
    exact (WidensTo.of_directSupertype (.of_base hd hbase)).trans ⟨distance, hpath.above⟩

theorem Acyclic.eq_of_widensTo (h : s.Acyclic) (hup : s.WidensTo type other)
    (hdown : s.WidensTo other type) : other = type := by
  rcases hup.eq_or_transGen with heq | hpath
  · exact heq
  rcases hdown.eq_or_transGen with heq | hpath'
  · exact heq.symm
  · exact (h type (hpath.trans hpath')).elim

/-- Without cycles, no type of a kind on a base chain is below the first one of the kind. -/
theorem Acyclic.eq_of_find? (h : s.Acyclic) {chain : List TypeId}
    (hchain : s.baseChain type = .ok chain) {p : TypeId → Bool} {result : TypeId}
    (hfind : chain.find? p = some result) (hother : other ∈ chain) (hp : p other = true)
    (hdown : s.WidensTo other result) : other = result := by
  obtain ⟨-, before, after, rfl, hbefore⟩ := List.find?_eq_some_iff_append.mp hfind
  rcases List.mem_append.mp hother with hearlier | hlater
  · have hnot := hbefore other hearlier
    rw [hp] at hnot
    cases hnot
  rcases List.mem_cons.mp hlater with heq | hafter
  · exact heq
  have hpairwise := (List.pairwise_append.mp (baseChainFrom_pairwise _ hchain)).2.1
  exact h.eq_of_widensTo ((List.pairwise_cons.mp hpairwise).1 other hafter) hdown

/-! ## Common classes -/

/-- The common class that is taken, if there is one: the first on the base chain, unless all inputs
are interfaces. -/
def commonClass? (s : Store) (inputs chain : List TypeId) (common : List (TypeId × Nat)) :
    Option TypeId :=
  if inputs.any fun type => !s.isInterface type then
    chain.find? fun type => (common.lookup type).isSome && !s.isInterface type
  else none

/-- The two procedures one after the other. That nothing is common needs no case of its own. -/
theorem lowestCommonOf_eq {first : Ancestry} {others : List Ancestry}
    (h : inputs.mapM s.ancestry = .ok (first :: others)) :
    s.lowestCommonOf inputs =
      match s.commonClass? inputs first.chain (s.commonMembers first others) with
      | some type => .ok (some type)
      | none => s.deepestInterface (first :: others) (s.commonMembers first others) := by
  have hstep : s.lowestCommonOf inputs =
      if (s.commonMembers first others).isEmpty then .ok none else
        match s.commonClass? inputs first.chain (s.commonMembers first others) with
        | some type => .ok (some type)
        | none => s.deepestInterface (first :: others) (s.commonMembers first others) := by
    rw [lowestCommonOf, h]
    rfl
  rw [hstep]
  cases s.commonMembers first others with
  | cons entry common => rfl
  | nil =>
    have hnone : s.commonClass? inputs first.chain [] = none := by simp [commonClass?]
    rw [hnone]
    rfl

/-- A type that is common and no interface is on the base chain of every input, and no input is an
interface. -/
theorem IsCommon.mem_baseChain (h : s.IsCommon inputs type) (hs : s.WellFormed)
    (hclass : s.isInterface type = false) {input : TypeId} (hinput : input ∈ inputs)
    (hlimits : s.InLimits input) {chain : List TypeId} (hchain : s.baseChain input = .ok chain) :
    type ∈ chain ∧ s.isInterface input = false := by
  have hwidens := h.widens input hinput
  refine ⟨(hs.mem_baseChain_iff hchain hclass).mpr (hlimits.distance hwidens), ?_⟩
  refine Bool.eq_false_iff.mpr fun hinterface => ?_
  rw [hwidens.isInterface hs hinterface] at hclass
  cases hclass

/-- The class that is taken is common, and no other candidate is below it. If none is taken, all
candidates are interfaces. -/
theorem WellFormed.commonClass?_spec (hs : s.WellFormed) (hacyclic : s.Acyclic) {input : TypeId}
    (hinput : input ∈ inputs) (hlimits : s.InLimits input) {chain : List TypeId}
    (hchain : s.baseChain input = .ok chain) {common : List (TypeId × Nat)}
    (hcommon : ∀ type, type ∈ common.map Prod.fst ↔ s.IsCommon inputs type) :
    (∀ type, s.commonClass? inputs chain common = some type → s.IsCommon inputs type ∧
      s.isInterface type = false ∧
      ∀ other, s.IsCommon inputs other → s.WidensTo other type → other = type) ∧
    (s.commonClass? inputs chain common = none → ∀ type, s.IsCommon inputs type →
      s.isInterface type = true) := by
  set isClass := fun type => (common.lookup type).isSome && !s.isInterface type with hisClass
  have hkept : ∀ type, isClass type = true ↔
      s.IsCommon inputs type ∧ s.isInterface type = false := by
    intro type
    rw [hisClass, Bool.and_eq_true, Bool.not_eq_true', ← hcommon type]
    exact and_congr_left' (Ancestry.contains_iff (a := ⟨chain, common⟩))
  constructor
  · intro type htaken
    have hfind : chain.find? isClass = some type := by
      unfold commonClass? at htaken
      split at htaken
      · exact htaken
      · cases htaken
    obtain ⟨htype, hclass⟩ := (hkept type).mp (List.find?_some hfind)
    refine ⟨htype, hclass, fun other hother hdown => ?_⟩
    -- from an interface no class is reached
    have hotherClass : s.isInterface other = false := Bool.eq_false_iff.mpr fun hinterface => by
      rw [hdown.isInterface hs hinterface] at hclass
      cases hclass
    have hmem := (hother.mem_baseChain hs hotherClass hinput hlimits hchain).1
    exact hacyclic.eq_of_find? hchain hfind hmem ((hkept other).mpr ⟨hother, hotherClass⟩) hdown
  · intro hnone type htype
    by_contra hclass
    rw [Bool.not_eq_true] at hclass
    obtain ⟨hmem, hinputClass⟩ := htype.mem_baseChain hs hclass hinput hlimits hchain
    have hany : (inputs.any fun type => !s.isInterface type) = true :=
      List.any_eq_true.mpr ⟨input, hinput, by rw [hinputClass]; rfl⟩
    rw [commonClass?, if_pos hany] at hnone
    exact List.find?_eq_none.mp hnone type hmem ((hkept type).mpr ⟨htype, hclass⟩)

end Store

end NominalTypes
