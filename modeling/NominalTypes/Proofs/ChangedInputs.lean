import Mathlib.Data.Option.Basic
import NominalTypes.Proofs.CommonAncestors

/-!
# Common ancestors of other inputs

What the inputs have in common does not depend on their order, and one more input leaves less of it.
Of two common classes one is on the base chain of the other, so there is one lowest class, wherever
it is looked for. Two common interfaces neither of which beats the other are equally deep and have
equally many votes, and the distance from the first input, which depends on the order, is looked at
last.

- `Store.Tied`, `Store.IsChosen.tied`: answers that differ by the order of the inputs.
- `Store.Reachable.lowestCommonAncestor_perm`: the inputs in another order.
- `Store.Widens`, `Store.IsChosen.widens`: answers that differ by one more input.
- `Store.Reachable.lowestCommonAncestor_append`: one more input.
-/

namespace NominalTypes

/-- An entry with as much depth as another one has no more votes unless it beats it. -/
theorem Standing.votes_le_of_not_beats {a b : Standing} (h : a.beats b = false)
    (hdepth : a.depth = b.depth) : a.votes ≤ b.votes := by
  simp only [beats, Bool.or_eq_false_iff, Bool.and_eq_false_iff, decide_eq_false_iff_not,
    beq_eq_false_iff_ne] at h
  omega

namespace Store

variable {s : Store} {type type' added : TypeId} {inputs inputs' : List TypeId}

/-! ## What is common -/

theorem IsCommon.of_subset (h : s.IsCommon inputs' type) (hsubset : inputs ⊆ inputs') :
    s.IsCommon inputs type := ⟨fun input hinput => h.widens input (hsubset hinput), h.not_root⟩

theorem isCommon_perm (hperm : inputs.Perm inputs') : s.IsCommon inputs = s.IsCommon inputs' :=
  funext fun _ => propext ⟨fun h => h.of_subset hperm.symm.subset, fun h => h.of_subset hperm.subset⟩

theorem isCommonInterface_perm (hperm : inputs.Perm inputs') :
    s.IsCommonInterface inputs = s.IsCommonInterface inputs' := by
  unfold IsCommonInterface
  rw [isCommon_perm hperm]

/-- Of two common classes one is on the base chain of the other. -/
theorem IsCommon.baseAbove_or (h : s.IsCommon inputs type) (h' : s.IsCommon inputs type')
    (hs : s.WellFormed) (hclass : s.isInterface type = false)
    (hclass' : s.isInterface type' = false) (hne : inputs ≠ [])
    (hinputs : ∀ input ∈ inputs, input < s.size) (hlimits : ∀ input ∈ inputs, s.InLimits input) :
    (∃ distance ≤ maxDistance, s.BaseAbove type distance type') ∨
      ∃ distance ≤ maxDistance, s.BaseAbove type' distance type := by
  obtain ⟨input, hinput⟩ := List.exists_mem_of_ne_nil inputs hne
  obtain ⟨chain, hchain⟩ := hs.answered_baseChain (hinputs input hinput)
  have hmem := (h.mem_baseChain hs hclass hinput (hlimits input hinput) hchain).1
  have hmem' := (h'.mem_baseChain hs hclass' hinput (hlimits input hinput) hchain).1
  obtain ⟨distance, hdistance, hpath⟩ := exists_baseAbove_of_mem hchain hmem
  obtain ⟨distance', hdistance', hpath'⟩ := exists_baseAbove_of_mem hchain hmem'
  -- the nearer one comes first on the chain of the input
  rcases Nat.le_total distance distance' with hle | hle
  · obtain ⟨rest, rfl⟩ := Nat.exists_eq_add_of_le hle
    exact .inl ⟨rest, (Nat.le_add_left _ _).trans hdistance', hpath.between hpath'⟩
  · obtain ⟨rest, rfl⟩ := Nat.exists_eq_add_of_le hle
    exact .inr ⟨rest, (Nat.le_add_left _ _).trans hdistance, hpath'.between hpath⟩

/-- If one of the candidates is no interface, none is chosen. -/
theorem IsChosen.isInterface_eq_false (h : s.IsChosen inputs type) (h' : s.IsCommon inputs type')
    (hclass : s.isInterface type' = false) : s.isInterface type = false := by
  refine Bool.eq_false_iff.mpr fun hinterface => ?_
  rw [h.interfaces hinterface type' h'] at hclass
  cases hclass

/-! ## Another order -/

/-- The types are equal, or both are interfaces of the same depth, and nearest among the common
interfaces for as many inputs. -/
structure Tied (s : Store) (inputs : List TypeId) (type type' : TypeId) : Prop where
  isInterface : s.isInterface type' = s.isInterface type
  eq : s.isInterface type = false → type' = type
  depth : s.isInterface type = true →
    ∃ depth, s.interfaceDepth type = .ok depth ∧ s.interfaceDepth type' = .ok depth
  votes : s.isInterface type = true →
    s.votesAmong (s.IsCommonInterface inputs) inputs type' =
      s.votesAmong (s.IsCommonInterface inputs) inputs type

theorem Tied.refl (hs : s.WellFormed) (htype : type < s.size) : s.Tied inputs type type where
  isInterface := rfl
  eq _ := rfl
  depth _ := by
    obtain ⟨depth, hdepth⟩ := hs.answered_interfaceDepth htype
    exact ⟨depth, hdepth, hdepth⟩
  votes _ := rfl

/-- Depth and votes in a standing are the same whatever the order of the inputs. -/
theorem HasStanding.perm {standing standing' : Standing} (h : s.HasStanding inputs type standing)
    (h' : s.HasStanding inputs' type standing') (hperm : inputs.Perm inputs') :
    standing'.depth = standing.depth ∧ standing'.votes = standing.votes := by
  have hdepth := h.depth.symm.trans h'.depth
  refine ⟨(Except.ok.inj hdepth).symm, ?_⟩
  rw [h.votes, h'.votes, isCommonInterface_perm hperm, votesAmong_perm hperm]

/-- The best interfaces are equally deep and have equally many votes, for neither beats the other. -/
theorem IsBestInterface.tied (h : s.IsBestInterface inputs type)
    (h' : s.IsBestInterface inputs' type') (hperm : inputs.Perm inputs') :
    s.Tied inputs type type' := by
  have hkind := h.common.2
  obtain ⟨best, hbest, hunbeaten⟩ := h.unbeaten
  obtain ⟨best', hbest', hunbeaten'⟩ := h'.unbeaten
  have hcommon := isCommonInterface_perm (s := s) hperm
  obtain ⟨rival, hrival, hnot⟩ := hunbeaten type' (hcommon ▸ h'.common)
  obtain ⟨rival', hrival', hnot'⟩ := hunbeaten' type (hcommon ▸ h.common)
  obtain ⟨hdepth, hvotes⟩ := hbest.perm hrival' hperm
  obtain ⟨hdepth', hvotes'⟩ := hrival.perm hbest' hperm
  have hle := Standing.depth_le_of_not_beats hnot
  have hle' := Standing.depth_le_of_not_beats hnot'
  have heq : rival.depth = best.depth := by omega
  have heq' : rival'.depth = best'.depth := by omega
  have hfewer := Standing.votes_le_of_not_beats hnot heq
  have hfewer' := Standing.votes_le_of_not_beats hnot' heq'
  refine ⟨h'.common.2.trans hkind.symm, fun hclass => ?_, fun _ => ?_, fun _ => ?_⟩
  · rw [hkind] at hclass
    cases hclass
  · exact ⟨best.depth, hbest.depth, heq ▸ hrival.depth⟩
  · rw [← hrival.votes, ← hbest.votes]
    omega

/-- The types that are chosen for the inputs in two orders are tied. -/
theorem IsChosen.tied (h : s.IsChosen inputs type) (h' : s.IsChosen inputs' type')
    (hperm : inputs.Perm inputs') (hs : s.WellFormed) (hne : inputs ≠ [])
    (hinputs : ∀ input ∈ inputs, input < s.size) (hlimits : ∀ input ∈ inputs, s.InLimits input) :
    s.Tied inputs type type' := by
  have hcommon := isCommon_perm (s := s) hperm
  have hother : s.IsCommon inputs type' := hcommon ▸ h'.common
  have hother' : s.IsCommon inputs' type := hcommon ▸ h.common
  cases hkind : s.isInterface type with
  | true => exact (h.best hkind).tied (h'.best (h.interfaces hkind type' hother)) hperm
  | false =>
    have hkind' := h'.isInterface_eq_false hother' hkind
    have heq : type' = type := by
      rcases h.common.baseAbove_or hother hs hkind hkind' hne hinputs hlimits with
        ⟨distance, -, hpath⟩ | ⟨distance, -, hpath⟩
      · exact (h'.lowest hkind' type hother' ⟨distance, hpath.above⟩).symm
      · exact h.lowest hkind type' hother ⟨distance, hpath.above⟩
    rw [heq]
    exact .refl hs (h.common.lt_size hs hne hinputs)

/-- Inputs in another order have a common ancestor if they had one before, and it is the same, or
tied with it. -/
theorem Reachable.lowestCommonAncestor_perm (hs : s.Reachable) (hacyclic : s.Acyclic)
    (hperm : inputs.Perm inputs') (hinputs : ∀ input ∈ inputs, input < s.size)
    (hlimits : ∀ input ∈ inputs, s.InLimits input) :
    (inputs = [] → s.lowestCommonAncestor inputs = .error .emptyTypeSet ∧
      s.lowestCommonAncestor inputs' = .error .emptyTypeSet) ∧
    (inputs ≠ [] → ∃ result result', s.lowestCommonAncestor inputs = .ok result ∧
      s.lowestCommonAncestor inputs' = .ok result' ∧
      Option.Rel (s.Tied inputs) result result') := by
  have hwf := hs.coherent.wellFormed
  constructor
  · rintro rfl
    rw [← hperm.nil_eq]
    exact ⟨rfl, rfl⟩
  intro hne
  have hne' : inputs' ≠ [] := fun hnil => hne (hnil ▸ hperm).eq_nil
  have hinputs' : ∀ input ∈ inputs', input < s.size := fun input hinput =>
    hinputs input (hperm.mem_iff.mpr hinput)
  have hlimits' : ∀ input ∈ inputs', s.InLimits input := fun input hinput =>
    hlimits input (hperm.mem_iff.mpr hinput)
  rcases hwf.lowestCommonAncestor_chosen hacyclic hne hinputs hlimits with
    ⟨type, hequal, hanswer⟩ | ⟨hdiffer, result, hresult, hnone, hchosen⟩
  · -- a list of equal types has one order only
    have hreplicate := List.eq_replicate_of_mem hequal
    have hsame : inputs' = inputs := by
      rw [hreplicate] at hperm ⊢
      exact List.perm_replicate.mp hperm.symm
    obtain ⟨input, hinput⟩ := List.exists_mem_of_ne_nil inputs hne
    rw [hsame]
    exact ⟨some type, some type, hanswer, hanswer,
      .some (.refl hwf (hequal input hinput ▸ hinputs input hinput))⟩
  rcases hwf.lowestCommonAncestor_chosen hacyclic hne' hinputs' hlimits' with
    ⟨type, hequal, -⟩ | ⟨-, result', hresult', hnone', hchosen'⟩
  · exact absurd ⟨type, fun input hinput => hequal input (hperm.mem_iff.mp hinput)⟩ hdiffer
  refine ⟨result, result', hresult, hresult', ?_⟩
  rw [← isCommon_perm hperm] at hnone'
  cases result with
  | none =>
    rw [hnone'.mpr (hnone.mp rfl)]
    exact .none
  | some type =>
    cases result' with
    | none => exact absurd (hchosen type rfl).common (hnone'.mp rfl type)
    | some type' =>
      exact .some ((hchosen type rfl).tied (hchosen' type' rfl) hperm hwf hne hinputs hlimits)

/-- Interfaces `IX`, `IY` and `IDeep`, the last with the base interface `IX`, classes `A` and `B` with
the interfaces `IX` and `IY` in either order, and classes `C` and `D` with the interface `IDeep`. -/
def crossed : Store :=
  Store.empty.afterAll
    [.declare (.plain .interface "IX"), .declare (.plain .interface "IY"),
      .declare { Declaration.plain .interface "IDeep" with interfaces := ["IX"] },
      .declare { Declaration.plain .classType "A" with interfaces := ["IX", "IY"] },
      .declare { Declaration.plain .classType "B" with interfaces := ["IY", "IX"] },
      .declare { Declaration.plain .classType "C" with interfaces := ["IDeep"] },
      .declare { Declaration.plain .classType "D" with interfaces := ["IDeep"] }]

theorem reachable_crossed : crossed.Reachable := Reachable.empty.afterAll _

theorem size_crossed : crossed.size = 7 := by decide +kernel

theorem acyclic_crossed : crossed.Acyclic :=
  acyclic_of_namesItself reachable_crossed.coherent (by decide +kernel)

theorem head_crossed_le (htype : type < crossed.size) : crossed.head type ≤ maxDistance := by
  have hhead := reachable_crossed.coherent.wellFormed.head_lt_size htype
  rw [size_crossed] at hhead
  exact hhead.le.trans (by decide)

theorem inLimits_crossed (htype : type < crossed.size) : crossed.InLimits type :=
  acyclic_crossed.inLimits reachable_crossed.coherent htype (by rw [size_crossed]; decide)
    (head_crossed_le htype)

/-- `IX` and `IY` are tied for `A` and `B`, and the interfaces of the first input are looked at in
the order in which it names them. -/
theorem lowestCommonAncestor_crossed :
    crossed.lowestCommonAncestor [3, 4] = .ok (some 0) ∧
      crossed.lowestCommonAncestor [4, 3] = .ok (some 1) ∧ crossed.Tied [3, 4] 0 1 := by
  have hknown : ∀ input ∈ [3, 4], input < crossed.size := by
    rw [size_crossed]
    decide
  obtain ⟨result, result', hresult, hresult', htied⟩ :=
    (reachable_crossed.lowestCommonAncestor_perm acyclic_crossed (List.Perm.swap 4 3 []) hknown
      fun input hinput => inLimits_crossed (hknown input hinput)).2 (List.cons_ne_nil 3 [4])
  have hanswer : crossed.lowestCommonAncestor [3, 4] = .ok (some 0) := by decide +kernel
  have hanswer' : crossed.lowestCommonAncestor [4, 3] = .ok (some 1) := by decide +kernel
  rw [hanswer] at hresult
  cases hresult
  rw [hanswer'] at hresult'
  cases hresult'
  cases htied with
  | some htied => exact ⟨hanswer, hanswer', htied⟩

/-! ## One more input -/

/-- The second type is wider than the first one: a class on its base chain, or an interface that is
not deeper. -/
structure Widens (s : Store) (type type' : TypeId) : Prop where
  base : s.isInterface type' = false → s.isInterface type = false ∧
    ∃ chain, s.baseChain type = .ok chain ∧ type' ∈ chain
  depth : s.isInterface type = true → s.isInterface type' = true →
    ∃ depth depth', s.interfaceDepth type = .ok depth ∧ s.interfaceDepth type' = .ok depth' ∧
      depth' ≤ depth

theorem Widens.refl (hs : s.WellFormed) (htype : type < s.size) : s.Widens type type where
  base hclass := by
    obtain ⟨chain, hchain⟩ := hs.answered_baseChain htype
    exact ⟨hclass, chain, hchain, mem_baseChain hchain .self (Nat.zero_le _)⟩
  depth _ _ := by
    obtain ⟨depth, hdepth⟩ := hs.answered_interfaceDepth htype
    exact ⟨depth, depth, hdepth, hdepth, le_rfl⟩

theorem IsChosen.widens (h : s.IsChosen inputs type) (h' : s.IsChosen inputs' type')
    (hsubset : inputs ⊆ inputs') (hs : s.WellFormed) (hne : inputs ≠ [])
    (hinputs : ∀ input ∈ inputs, input < s.size) (hlimits : ∀ input ∈ inputs, s.InLimits input) :
    s.Widens type type' := by
  have hcommon := h'.common.of_subset hsubset
  constructor
  · intro hclass'
    have hclass := h.isInterface_eq_false hcommon hclass'
    obtain ⟨chain, hchain⟩ := hs.answered_baseChain (h.common.lt_size hs hne hinputs)
    refine ⟨hclass, chain, hchain, ?_⟩
    rcases h.common.baseAbove_or hcommon hs hclass hclass' hne hinputs hlimits with
      ⟨distance, hdistance, hpath⟩ | ⟨distance, -, hpath⟩
    · exact mem_baseChain hchain hpath hdistance
    · rw [h.lowest hclass type' hcommon ⟨distance, hpath.above⟩]
      exact mem_baseChain hchain .self (Nat.zero_le _)
  · intro hinterface hinterface'
    obtain ⟨standing, hstanding, hunbeaten⟩ := (h.best hinterface).unbeaten
    obtain ⟨standing', hstanding', hnot⟩ := hunbeaten type' ⟨hcommon, hinterface'⟩
    exact ⟨standing.depth, standing'.depth, hstanding.depth, hstanding'.depth,
      Standing.depth_le_of_not_beats hnot⟩

/-- What all inputs widen to is wider than any one of them: depths that are computed in full fall
along paths. -/
theorem IsCommon.widens_input {input : TypeId} (h : s.IsCommon inputs type) (hs : s.WellFormed)
    (hinput : input ∈ inputs) (hknown : input < s.size) (hlimits : s.InLimits input)
    (hshort : ∀ interface, s.isInterface interface = true →
      ∀ {length : Nat} {top : TypeId}, s.Above interface length top → length ≤ maxDistance) :
    s.Widens input type := by
  constructor
  · intro hclass
    obtain ⟨chain, hchain⟩ := hs.answered_baseChain hknown
    obtain ⟨hmem, hkind⟩ := h.mem_baseChain hs hclass hinput hlimits hchain
    exact ⟨hkind, chain, hchain, hmem⟩
  · intro hinterface hinterface'
    obtain ⟨depth, hdepth, hhas⟩ :=
      hs.exists_hasDepth_of_interfaceDepth hinterface (hshort input hinterface)
    obtain ⟨depth', hdepth', hhas'⟩ :=
      hs.exists_hasDepth_of_interfaceDepth hinterface' (hshort type hinterface')
    refine ⟨depth, depth', hdepth, hdepth', ?_⟩
    obtain ⟨distance, hpath⟩ := h.widens input hinput
    cases distance with
    | zero =>
      cases hpath
      exact (Except.ok.inj (hdepth'.symm.trans hdepth)).le
    | succ distance => exact (hhas.lt_of_above hpath hhas').le

/-- With one more input there is no common ancestor where there was none before, and one that there
is is not narrower. -/
theorem Reachable.lowestCommonAncestor_append (hs : s.Reachable) (hacyclic : s.Acyclic)
    (hshort : ∀ interface, s.isInterface interface = true →
      ∀ {length : Nat} {top : TypeId}, s.Above interface length top → length ≤ maxDistance)
    (hne : inputs ≠ []) (hinputs : ∀ input ∈ inputs ++ [added], input < s.size)
    (hlimits : ∀ input ∈ inputs ++ [added], s.InLimits input) :
    ∃ result result', s.lowestCommonAncestor inputs = .ok result ∧
      s.lowestCommonAncestor (inputs ++ [added]) = .ok result' ∧
      (result = none → result' = none) ∧
      ∀ type type', result = some type → result' = some type' → s.Widens type type' := by
  have hwf := hs.coherent.wellFormed
  have hsubset : inputs ⊆ inputs ++ [added] := List.subset_append_left inputs [added]
  have hinputsFew := fun input hinput => hinputs input (hsubset hinput)
  have hlimitsFew := fun input hinput => hlimits input (hsubset hinput)
  have hmore := hwf.lowestCommonAncestor_chosen hacyclic (List.append_ne_nil_of_left_ne_nil hne _)
    hinputs hlimits
  rcases hwf.lowestCommonAncestor_chosen hacyclic hne hinputsFew hlimitsFew with
    ⟨type, hequal, hanswer⟩ | ⟨hdiffer, result, hresult, hnone, hchosen⟩
  · obtain ⟨input, hinput⟩ := List.exists_mem_of_ne_nil inputs hne
    obtain rfl := hequal input hinput
    rcases hmore with ⟨type', hequal', hanswer'⟩ | ⟨-, result', hresult', -, hchosen'⟩
    · obtain rfl := hequal' input (hsubset hinput)
      refine ⟨some input, some input, hanswer, hanswer', id, fun type type' htype htype' => ?_⟩
      cases htype
      cases htype'
      exact .refl hwf (hinputsFew input hinput)
    · refine ⟨some input, result', hanswer, hresult', (fun h => nomatch h), ?_⟩
      intro type type' htype htype'
      cases htype
      exact (hchosen' type' htype').common.widens_input hwf (hsubset hinput)
        (hinputsFew input hinput) (hlimitsFew input hinput) hshort
  · rcases hmore with ⟨type', hequal', -⟩ | ⟨-, result', hresult', hnone', hchosen'⟩
    · exact absurd ⟨type', fun input hinput => hequal' input (hsubset hinput)⟩ hdiffer
    refine ⟨result, result', hresult, hresult', fun heq => ?_, fun type type' htype htype' => ?_⟩
    · exact hnone'.mpr fun type htype => hnone.mp heq type (htype.of_subset hsubset)
    · exact (hchosen type htype).widens (hchosen' type' htype') hsubset hwf hne hinputsFew hlimitsFew

/-- `C` and `D` have `IDeep` in common, and with `A` only the interface `IX` above it. -/
theorem lowestCommonAncestor_append_crossed :
    crossed.lowestCommonAncestor [5, 6] = .ok (some 2) ∧
      crossed.lowestCommonAncestor ([5, 6] ++ [3]) = .ok (some 0) ∧ crossed.Widens 2 0 := by
  have hknown : ∀ input ∈ [5, 6] ++ [3], input < crossed.size := by
    rw [size_crossed]
    decide
  obtain ⟨result, result', hresult, hresult', -, hwidens⟩ :=
    reachable_crossed.lowestCommonAncestor_append acyclic_crossed
      (fun interface hinterface length top hpath => by
        have hhead := head_crossed_le (lt_of_kind? (isInterface_iff.mp hinterface))
        have hle := acyclic_crossed.length_le reachable_crossed.coherent hpath
        exact (Nat.le_add_right _ _).trans (hle.trans hhead))
      (List.cons_ne_nil 5 [6]) hknown fun input hinput => inLimits_crossed (hknown input hinput)
  have hanswer : crossed.lowestCommonAncestor [5, 6] = .ok (some 2) := by decide +kernel
  have hanswer' : crossed.lowestCommonAncestor ([5, 6] ++ [3]) = .ok (some 0) := by decide +kernel
  rw [hanswer] at hresult
  cases hresult
  rw [hanswer'] at hresult'
  cases hresult'
  exact ⟨hanswer, hanswer', hwidens 2 0 rfl rfl⟩

end Store

end NominalTypes
