import NominalTypes.Proofs.Hierarchy.Reach

/-!
# Depths of interfaces

The depth of an interface is the number of interfaces on the longest chain that begins with it.
Depths are kept when they have been computed, and an interface out of reach counts as one without
base interfaces. Such a count must not be taken for a depth later on. It never is where no chain is
longer than the levels of the walk: an interface that is met at the last level has nothing above it.

- `Store.HasDepth`: what a depth is, and `Store.HasDepth.lt_of_above`: it falls along paths.
- `Store.hasDepth_of_supertypes`: the depth of a type from those of its supertypes.
- `Store.KnowsDepths`: the invariant of the walk, all depths kept are right.
- `Store.WellFormed.exists_hasDepth_of_interfaceDepth`: the depths that are computed.
-/

namespace NominalTypes

theorem foldl_max_le_iff {numbers : List Nat} {init bound : Nat} :
    numbers.foldl max init ≤ bound ↔ init ≤ bound ∧ ∀ number ∈ numbers, number ≤ bound := by
  induction numbers generalizing init with
  | nil => simp
  | cons number numbers ih =>
    rw [List.foldl_cons, ih, Nat.max_le, List.forall_mem_cons, and_assoc]

namespace Store

variable {s : Store} {type other : TypeId} {depth distance : Nat}

/-! ## Longest paths -/

/-- So many types are on the longest path upwards from the type, itself counted. -/
structure HasDepth (s : Store) (type : TypeId) (depth : Nat) : Prop where
  exists_path : ∃ length top, s.Above type length top ∧ depth = length + 1
  length_lt : ∀ {length : Nat} {top : TypeId}, s.Above type length top → length < depth

/-- Depths fall along paths. -/
theorem HasDepth.lt_of_above (h : s.HasDepth type depth) (hpath : s.Above type (distance + 1) other)
    {depth' : Nat} (h' : s.HasDepth other depth') : depth' < depth := by
  obtain ⟨length, top, hrest, rfl⟩ := h'.exists_path
  have hlt := h.length_lt (hpath.trans hrest)
  omega

/-- The longest path from a type begins with the supertype of the greatest depth. -/
theorem hasDepth_of_supertypes {d : Descriptor} (hd : s.get? type = some d) {depths : List Nat}
    (h : List.Forall₂ s.HasDepth d.supertypes depths) :
    s.HasDepth type (depths.foldl max 0 + 1) := by
  constructor
  · cases hmax : depths.foldl max 0 with
    | zero => exact ⟨0, type, .self, rfl⟩
    | succ greatest =>
      -- the greatest depth is one of them
      have hnot : ¬ ∀ depth ∈ depths, depth ≤ greatest := fun hall => by
        have hle := foldl_max_le_iff.mpr ⟨Nat.zero_le greatest, hall⟩
        omega
      push Not at hnot
      obtain ⟨depth, hdepth, hlt⟩ := hnot
      have hle := (foldl_max_le_iff.mp hmax.le).2 depth hdepth
      obtain ⟨position, hposition, rfl⟩ := List.mem_iff_getElem.mp hdepth
      have hsupertype := h.get (h.length_eq ▸ hposition) hposition
      obtain ⟨length, top, hpath, heq⟩ := hsupertype.exists_path
      have hedge : s.DirectSupertype type _ := ⟨d, hd, List.getElem_mem (h.length_eq ▸ hposition)⟩
      refine ⟨1 + length, top, (Above.self.step hedge).trans hpath, ?_⟩
      simp only [List.get_eq_getElem] at heq
      omega
  · intro length top hpath
    cases length with
    | zero => exact Nat.succ_pos _
    | succ length =>
      obtain ⟨next, ⟨d', hd', hnext⟩, hrest⟩ := hpath.head
      rw [hd] at hd'
      cases hd'
      obtain ⟨position, hposition, rfl⟩ := List.mem_iff_getElem.mp hnext
      have hsupertype := h.get hposition (h.length_eq ▸ hposition)
      have hlt := hsupertype.length_lt hrest
      have hle := (foldl_max_le_iff.mp (Nat.le_refl (depths.foldl max 0))).2 _
        (List.getElem_mem (h.length_eq ▸ hposition))
      simp only [List.get_eq_getElem] at hlt
      omega

/-! ## The walk -/

/-- The depths kept so far are right. -/
def KnowsDepths (s : Store) (depths : Std.TreeMap TypeId Nat) : Prop :=
  ∀ type depth, depths[type]? = some depth → s.HasDepth type depth

theorem KnowsDepths.insert {depths : Std.TreeMap TypeId Nat} (h : s.KnowsDepths depths)
    (hdepth : s.HasDepth type depth) : s.KnowsDepths (depths.insert type depth) := by
  intro other depth' hother
  rw [Std.TreeMap.getElem?_insert] at hother
  split at hother
  · next heq =>
    cases hother
    rwa [← Std.LawfulEqCmp.eq_of_compare heq]
  · exact h other depth' hother

namespace WellFormed

/-- An interface has no base type, and its supertypes are its base interfaces. -/
theorem supertypes_of_interface (hs : s.WellFormed) {d : Descriptor} (hd : s.get? type = some d)
    (htype : s.isInterface type = true) : d.supertypes = d.interfaces := by
  have hkind := isInterface_iff.mp htype
  rw [kind?_of_get? hd, Option.some.injEq] at hkind
  rw [Descriptor.supertypes, (hs.sound type d hd).base_interface hkind]
  rfl

/-- If no path from an interface is longer than the levels, its depth is found, and depths that are
kept on the way are right. -/
theorem interfaceDepthWithin_ends (hs : s.WellFormed) (levels : Nat) :
    ∀ {type : TypeId}, s.isInterface type = true →
      (∀ {length : Nat} {top : TypeId}, s.Above type length top → length ≤ levels) →
      ∀ {depths : Std.TreeMap TypeId Nat}, s.KnowsDepths depths →
        ∃ depth depths', (s.interfaceDepthWithin levels type).run depths = .ok (depth, depths') ∧
          s.HasDepth type depth ∧ s.KnowsDepths depths' := by
  induction levels with
  | zero =>
    intro type htype hshort depths hdepths
    refine ⟨(depths[type]?).getD 1, depths, rfl, ?_, hdepths⟩
    cases hknown : depths[type]? with
    | some depth => exact hdepths type depth hknown
    | none => exact ⟨⟨0, type, .self, rfl⟩, fun hpath => Nat.lt_succ_of_le (hshort hpath)⟩
  | succ levels ih =>
    intro type htype hshort depths hdepths
    obtain ⟨d, hd⟩ := exists_get? (lt_of_kind? (isInterface_iff.mp htype))
    rw [run_interfaceDepthWithin_succ hd]
    cases hknown : depths[type]? with
    | some depth => exact ⟨depth, depths, rfl, hdepths type depth hknown, hdepths⟩
    | none =>
      have hbases : ∀ base ∈ d.interfaces, ∀ depths, s.KnowsDepths depths →
          ∃ depth depths', (s.interfaceDepthWithin levels base).run depths = .ok (depth, depths') ∧
            s.HasDepth base depth ∧ s.KnowsDepths depths' := by
        intro base hbase depths hdepths
        have hedge : s.DirectSupertype type base := ⟨d, hd, Descriptor.mem_supertypes_of_mem hbase⟩
        refine ih (isInterface_iff.mpr ((hs.sound type d hd).interfaces base hbase)) ?_ hdepths
        intro length top hpath
        have hle := hshort ((Above.self.step hedge).trans hpath)
        omega
      obtain ⟨found, depths', hrun, hfound, hdepths'⟩ := exists_run_mapM hbases hdepths
      rw [hrun]
      have hdepth : s.HasDepth type (found.foldl max 0 + 1) :=
        hasDepth_of_supertypes hd (hs.supertypes_of_interface hd htype ▸ hfound)
      exact ⟨_, _, rfl, hdepth, hdepths'.insert hdepth⟩

/-- The depth that is computed for an interface is the right one if no chain that begins with it is
longer than walks follow. -/
theorem exists_hasDepth_of_interfaceDepth (hs : s.WellFormed) (htype : s.isInterface type = true)
    (hshort : ∀ {length : Nat} {top : TypeId}, s.Above type length top → length ≤ maxDistance) :
    ∃ depth, s.interfaceDepth type = .ok depth ∧ s.HasDepth type depth := by
  have hempty : s.KnowsDepths ∅ := fun type depth h => by simp at h
  obtain ⟨depth, depths, hrun, hdepth, -⟩ :=
    hs.interfaceDepthWithin_ends maxDistance htype hshort hempty
  exact ⟨depth, bind_eq_ok.mpr ⟨_, hrun, rfl⟩, hdepth⟩

end WellFormed

end Store

end NominalTypes
