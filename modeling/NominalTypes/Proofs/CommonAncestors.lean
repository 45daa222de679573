import NominalTypes.Proofs.CommonAncestors.Standings
import NominalTypes.Proofs.Hierarchy.Depth

/-!
# Lowest common ancestors are common, and lowest

Two procedures choose the lowest common ancestor: the first common class on the base chain of the
first type, or else the best of the common interfaces. No candidate is below the first common class,
and among interfaces the deeper one is never above, so in a hierarchy without cycles nothing common
is below the choice.

- `Store.IsLowestCommon`: what a lowest common ancestor is.
- `Store.IsChosen.isLowest`: what is chosen is a lowest candidate.
- `Store.Reachable.lowestCommonAncestor_isLowest`: the main result.
-/

namespace NominalTypes

namespace Store

variable {s : Store} {type other : TypeId} {inputs : List TypeId}

/-! ## Lowest common ancestors -/

/-- All inputs may be stored where the type is expected and can be widened to it, and no other
candidate can. The universal root is no answer unless it was the question. -/
structure IsLowestCommon (s : Store) (inputs : List TypeId) (type : TypeId) : Prop where
  accepts : ∀ input ∈ inputs, s.accepts type input = .ok true
  widens : ∀ input ∈ inputs, s.WidensTo input type
  root : s.isRoot type = true → ∀ input ∈ inputs, input = type
  lowest : ∀ other, other ≠ type → s.IsCommon inputs other → ¬ s.WidensTo other type

/-- A candidate that no other candidate is below is a lowest common ancestor. -/
theorem IsCommon.isLowestCommon (h : s.IsCommon inputs type) (hs : s.WellFormed)
    (hinputs : ∀ input ∈ inputs, input < s.size) (hlimits : ∀ input ∈ inputs, s.InLimits input)
    (hlowest : ∀ other, s.IsCommon inputs other → s.WidensTo other type → other = type) :
    s.IsLowestCommon inputs type where
  accepts input hinput := by
    have hwidens := h.widens input hinput
    have htype := hwidens.lt_size hs (hinputs input hinput)
    refine (hs.accepts_iff htype (hinputs input hinput) (hlimits input hinput).size).mpr ?_
    exact .inr (.inr (.inr ((hlimits input hinput).distance hwidens)))
  widens := h.widens
  root hroot := by
    rw [h.not_root] at hroot
    cases hroot
  lowest other hne hother hdown := hne (hlowest other hother hdown)

/-- Equal inputs are their own lowest common ancestor, be it the universal root. -/
theorem Acyclic.isLowestCommon_self (h : s.Acyclic) (hne : inputs ≠ [])
    (hequal : ∀ input ∈ inputs, input = type) (htype : type < s.size) :
    s.IsLowestCommon inputs type where
  accepts input hinput := by
    rw [hequal input hinput]
    exact accepts_self htype
  widens input hinput := by
    rw [hequal input hinput]
    exact .refl s type
  root _ := hequal
  lowest other hother hcommon hdown := by
    obtain ⟨input, hinput⟩ := List.exists_mem_of_ne_nil inputs hne
    have hup := hcommon.widens input hinput
    rw [hequal input hinput] at hup
    exact hother (h.eq_of_widensTo hup hdown)

/-- If the depths of interfaces are computed in full, no candidate is below the one that is chosen:
it would be deeper. -/
theorem IsChosen.isLowest (h : s.IsChosen inputs type) (hs : s.WellFormed)
    (hshort : ∀ type, s.IsCommon inputs type → s.isInterface type = true →
      ∀ {length : Nat} {top : TypeId}, s.Above type length top → length ≤ maxDistance)
    (other : TypeId) (hother : s.IsCommon inputs other) (hdown : s.WidensTo other type) :
    other = type := by
  cases hkind : s.isInterface type with
  | false => exact h.lowest hkind other hother hdown
  | true =>
    have hotherKind := h.interfaces hkind other hother
    obtain ⟨standing, hstanding, hunbeaten⟩ := (h.best hkind).unbeaten
    obtain ⟨standing', hstanding', hnot⟩ := hunbeaten other ⟨hother, hotherKind⟩
    have hdepths : ∀ {x : TypeId} {standing : Standing}, s.IsCommon inputs x →
        s.isInterface x = true → s.HasStanding inputs x standing →
          s.HasDepth x standing.depth := by
      intro x standing hx hxKind hxStanding
      obtain ⟨depth, hdepth, hhas⟩ := hs.exists_hasDepth_of_interfaceDepth hxKind (hshort x hx hxKind)
      rw [hxStanding.depth] at hdepth
      cases hdepth
      exact hhas
    obtain ⟨distance, hpath⟩ := hdown
    cases distance with
    | zero =>
      cases hpath
      rfl
    | succ distance =>
      have hlt := (hdepths hother hotherKind hstanding').lt_of_above hpath
        (hdepths h.common hkind hstanding)
      exact absurd hlt (Nat.not_lt_of_le (Standing.depth_le_of_not_beats hnot))

/-- Inputs have a lowest common ancestor exactly if they have a candidate in common. -/
theorem WellFormed.lowestCommonOf_spec (hs : s.WellFormed) (hacyclic : s.Acyclic)
    (hne : inputs ≠ []) (hinputs : ∀ input ∈ inputs, input < s.size)
    (hlimits : ∀ input ∈ inputs, s.InLimits input)
    (hshort : ∀ type, s.IsCommon inputs type → s.isInterface type = true →
      ∀ {length : Nat} {top : TypeId}, s.Above type length top → length ≤ maxDistance) :
    ∃ result, s.lowestCommonOf inputs = .ok result ∧
      (∀ type, result = some type → s.IsLowestCommon inputs type) ∧
      (result = none ↔ ∀ type, ¬ s.IsCommon inputs type) := by
  obtain ⟨result, hresult, hnone, hchosen⟩ :=
    hs.lowestCommonOf_chosen hacyclic hne hinputs hlimits
  refine ⟨result, hresult, fun type heq => ?_, hnone⟩
  have htype := hchosen type heq
  exact htype.common.isLowestCommon hs hinputs hlimits (htype.isLowest hs hshort)

/-- Without cycles and within the limits of the walks, the answer is a lowest common ancestor, and
there is none only if the inputs differ and have no type but the universal root in common. -/
theorem Reachable.lowestCommonAncestor_isLowest (hs : s.Reachable) (hacyclic : s.Acyclic)
    (hne : inputs ≠ []) (hinputs : ∀ input ∈ inputs, input < s.size)
    (hlimits : ∀ input ∈ inputs, s.InLimits input)
    (hshort : ∀ type, s.IsCommon inputs type → s.isInterface type = true →
      ∀ {length : Nat} {top : TypeId}, s.Above type length top → length ≤ maxDistance) :
    ∃ result, s.lowestCommonAncestor inputs = .ok result ∧
      (∀ type, result = some type → s.IsLowestCommon inputs type) ∧
      (result = none ↔ (¬ ∃ input, ∀ other ∈ inputs, other = input) ∧
        ∀ type, ¬ s.IsCommon inputs type) := by
  have hwf := hs.coherent.wellFormed
  cases inputs with
  | nil => exact absurd rfl hne
  | cons first rest =>
  rw [lowestCommonAncestor_eq hinputs]
  by_cases hequal : rest.all (· == first) = true
  · have hall : ∀ input ∈ first :: rest, input = first :=
      List.forall_mem_cons.mpr ⟨rfl, by simpa using hequal⟩
    rw [if_pos hequal]
    refine ⟨some first, rfl, fun type heq => ?_, ?_⟩
    · cases heq
      exact hacyclic.isLowestCommon_self hne hall (hinputs first List.mem_cons_self)
    · exact iff_of_false (Option.some_ne_none first) fun hnone => hnone.1 ⟨first, hall⟩
  · have hdiffer : ¬ ∃ input, ∀ other ∈ first :: rest, other = input := by
      rintro ⟨input, hall⟩
      obtain ⟨rfl, hrest⟩ := List.forall_mem_cons.mp hall
      exact hequal (by simpa using hrest)
    obtain ⟨result, hresult, hlowest, hnone⟩ :=
      hwf.lowestCommonOf_spec hacyclic hne hinputs hlimits hshort
    rw [if_neg hequal]
    exact ⟨result, hresult, hlowest, hnone.trans ⟨fun h => ⟨hdiffer, h⟩, fun h => h.2⟩⟩

/-! ## Small hierarchies -/

/-- Without cycles, the limits hide nothing from types that are declared early in a small store. -/
theorem Acyclic.inLimits (h : s.Acyclic) (hs : s.Coherent) (htype : type < s.size)
    (hsize : s.size ≤ maxAncestrySize) (hhead : s.head type ≤ maxDistance) : s.InLimits type where
  size := (hs.wellFormed.encard_widensTo_le htype).trans (by exact_mod_cast hsize)
  distance {other} hwidens := by
    obtain ⟨length, hpath⟩ := hwidens
    exact ⟨length, (Nat.le_add_right _ _).trans ((h.length_le hs hpath).trans hhead), hpath⟩

/-- An interface `IBase`, an interface `IDeep` with the base interface `IBase`, and two classes with
the interface `IDeep`. -/
def siblings : Store :=
  let declared := (Operation.declare (.plain .interface "IBase")).perform.after .empty
  let declared := (Operation.declare
    { Declaration.plain .interface "IDeep" with interfaces := ["IBase"] }).perform.after declared
  let declared := (Operation.declare
    { Declaration.plain .classType "A" with interfaces := ["IDeep"] }).perform.after declared
  (Operation.declare
    { Declaration.plain .classType "B" with interfaces := ["IDeep"] }).perform.after declared

theorem reachable_siblings : siblings.Reachable := .step _ (.step _ (.step _ (.step _ .empty)))

theorem acyclic_siblings : siblings.Acyclic :=
  acyclic_of_namesItself reachable_siblings.coherent (by decide +kernel)

/-- `A` and `B` have `IDeep` in common, which is below `IBase`. -/
theorem lowestCommonAncestor_siblings :
    siblings.lowestCommonAncestor [2, 3] = .ok (some 1) ∧ siblings.IsLowestCommon [2, 3] 1 := by
  have hcoherent := reachable_siblings.coherent
  have hsize : siblings.size = 4 := by decide +kernel
  have hknown : ∀ input ∈ [2, 3], input < siblings.size := by decide +kernel
  have hheads : ∀ type < siblings.size, siblings.head type ≤ maxDistance := by decide +kernel
  have hlimits : ∀ input ∈ [2, 3], siblings.InLimits input := fun input hinput =>
    acyclic_siblings.inLimits hcoherent (hknown input hinput) (by rw [hsize]; decide)
      (hheads input (hknown input hinput))
  obtain ⟨result, hresult, hlowest, -⟩ :=
    reachable_siblings.lowestCommonAncestor_isLowest acyclic_siblings (List.cons_ne_nil 2 [3])
      hknown hlimits fun type _ hinterface length top hpath => by
        have hle := acyclic_siblings.length_le hcoherent hpath
        have hhead := hheads type (lt_of_kind? (isInterface_iff.mp hinterface))
        exact (Nat.le_add_right _ _).trans (hle.trans hhead)
  have hanswer : siblings.lowestCommonAncestor [2, 3] = .ok (some 1) := by decide +kernel
  rw [hanswer] at hresult
  cases hresult
  exact ⟨hanswer, hlowest 1 rfl⟩

end Store

end NominalTypes
