import Mathlib.Data.Set.Card
import NominalTypes.Proofs.Hierarchy.Completeness
import NominalTypes.Proofs.Hierarchy.Walks

/-!
# What walks up the hierarchy find

Two relations say where a type may be widened to: along any path of supertypes, or along a path
within the limit of walks. If no more types are above a type than an ancestry may hold, the ancestry
holds exactly those in reach, and the base chain is the part of them that is not made of interfaces.

- `Store.WidensTo`, `Store.InReach`: the two relations.
- `Store.Above.trans`, `Store.Above.head`: paths are put together and taken apart.
- `Store.mem_types_iff`, `Store.WellFormed.mem_baseChain_iff`: what the two walks find.
- `Store.WellFormed.accepts_iff`: direct assignability.
- `Store.InLimits`: types above which the limits hide nothing.
-/

namespace NominalTypes.Store

variable {s : Store} {type other target candidate : TypeId} {distance : Nat}

/-- The second type is the first one, or is reached from it by supertypes. -/
def WidensTo (s : Store) (type other : TypeId) : Prop := ∃ distance, s.Above type distance other

/-- A walk from the first type may come to the second one: it is reached by no more supertypes than
walks follow in a row. -/
def InReach (s : Store) (type other : TypeId) : Prop :=
  ∃ distance ≤ maxDistance, s.Above type distance other

/-! ## Paths -/

theorem Above.trans {upper : TypeId} {distance' : Nat} (h : s.Above type distance other)
    (h' : s.Above other distance' upper) : s.Above type (distance + distance') upper := by
  induction h' with
  | self => exact h
  | step _ edge ih => exact .step ih edge

/-- A path of some length begins with a supertype. -/
theorem Above.head (h : s.Above type (distance + 1) other) :
    ∃ next, s.DirectSupertype type next ∧ s.Above next distance other := by
  generalize hlength : distance + 1 = length at h
  induction h generalizing distance with
  | self => cases hlength
  | @step length lower upper path edge ih =>
    cases hlength
    cases length with
    | zero =>
      cases path
      exact ⟨upper, edge, .self⟩
    | succ length =>
      obtain ⟨next, hfirst, hrest⟩ := ih rfl
      exact ⟨next, hfirst, .step hrest edge⟩

theorem InReach.widensTo (h : s.InReach type other) : s.WidensTo type other := by
  obtain ⟨distance, -, hpath⟩ := h
  exact ⟨distance, hpath⟩

namespace WidensTo

theorem refl (s : Store) (type : TypeId) : s.WidensTo type type := ⟨0, .self⟩

theorem trans {upper : TypeId} (h : s.WidensTo type other) (h' : s.WidensTo other upper) :
    s.WidensTo type upper := by
  obtain ⟨distance, hpath⟩ := h
  obtain ⟨distance', hpath'⟩ := h'
  exact ⟨distance + distance', hpath.trans hpath'⟩

theorem of_directSupertype (h : s.DirectSupertype type other) : s.WidensTo type other :=
  ⟨1, .step .self h⟩

theorem lt_size (h : s.WidensTo type other) (hs : s.WellFormed) (htype : type < s.size) :
    other < s.size := by
  obtain ⟨distance, hpath⟩ := h
  exact hpath.lt_size hs htype

/-- A type is widened to itself, or upwards by at least one supertype. -/
theorem eq_or_transGen (h : s.WidensTo type other) :
    other = type ∨ Relation.TransGen s.DirectSupertype type other := by
  obtain ⟨distance, hpath⟩ := h
  induction hpath with
  | self => exact .inl rfl
  | step _ edge ih =>
    rcases ih with rfl | hpath
    · exact .inr (.single edge)
    · exact .inr (hpath.tail edge)

/-- From an interface nothing but interfaces is reached. -/
theorem isInterface (h : s.WidensTo type other) (hs : s.WellFormed)
    (htype : s.isInterface type = true) : s.isInterface other = true := by
  by_contra hnot
  obtain ⟨distance, hpath⟩ := h
  have hbase := hpath.baseAbove hs (by simpa using hnot)
  cases distance with
  | zero =>
    cases hpath
    exact hnot htype
  | succ distance =>
    obtain ⟨d, hd, hkind⟩ := Option.map_eq_some_iff.mp (isInterface_iff.mp htype)
    obtain ⟨base, hnone, -⟩ := hbase.head hd
    rw [(hs.sound type d hd).base_interface hkind] at hnone
    cases hnone

end WidensTo

/-- Known types widen to known types only, so there are finitely many. -/
theorem WellFormed.encard_widensTo_le (hs : s.WellFormed) (htype : type < s.size) :
    {other | s.WidensTo type other}.encard ≤ s.size := by
  have hsubset : {other | s.WidensTo type other} ⊆ ↑(Finset.range s.size) := fun other hother => by
    simpa using hother.lt_size hs htype
  refine (Set.encard_le_encard hsubset).trans ?_
  rw [Set.encard_coe_eq_coe_finsetCard, Finset.card_range]

/-! ## Ancestries -/

/-- If an ancestry has room for everything above a type, the limit of its size does no harm: when it
is full, nothing is missing. -/
theorem neverCut_of_encard_le {found : List (TypeId × Nat)} (hnodup : (found.map Prod.fst).Nodup)
    (habove : s.FoundAbove type distance found)
    (hfew : {other | s.WidensTo type other}.encard ≤ maxAncestrySize) : s.NeverCut found := by
  intro part hpart hmany entry hentry upper hupper
  have hwidens : ∀ x ∈ part.map Prod.fst, s.WidensTo type x := by
    intro x hx
    obtain ⟨e, he, rfl⟩ := List.mem_map.mp hx
    exact ⟨e.2, (habove e (hpart.subset he)).1⟩
  -- the types known are as many as there are, so they are all of them
  have hall : {x | x ∈ part.map Prod.fst} = {x | s.WidensTo type x} := by
    refine (List.finite_toSet (part.map Prod.fst)).eq_of_subset_of_encard_le hwidens ?_
    have hdistinct : (part.map Prod.fst).Nodup := (hpart.map Prod.fst).sublist.nodup hnodup
    have hcard : {x | x ∈ part.map Prod.fst}.encard = part.length := by
      rw [← List.coe_toFinset, Set.encard_coe_eq_coe_finsetCard,
        List.toFinset_card_of_nodup hdistinct, List.length_map]
    rw [hcard]
    exact hfew.trans (by exact_mod_cast hmany)
  have hlower := hwidens entry.1 (List.mem_map_of_mem hentry)
  exact hall.ge (hlower.trans (.of_directSupertype hupper))

theorem neverCut_ancestry {a : Ancestry} (ha : s.ancestry type = .ok a)
    (hfew : {other | s.WidensTo type other}.encard ≤ maxAncestrySize) :
    s.NeverCut a.members.reverse := by
  have hnodup : (a.members.reverse.map Prod.fst).Nodup := by
    rw [List.map_reverse]
    exact List.pairwise_reverse.mpr ((ancestry_nodup ha).imp Ne.symm)
  exact neverCut_of_encard_le hnodup
    (fun entry hentry => (ancestry_sound ha).2 entry (List.mem_reverse.mp hentry)) hfew

/-- An ancestry with room for everything above a type holds the types in reach, and no others. -/
theorem mem_types_iff {a : Ancestry} (ha : s.ancestry type = .ok a)
    (hfew : {other | s.WidensTo type other}.encard ≤ maxAncestrySize) :
    other ∈ a.types ↔ s.InReach type other := by
  constructor
  · intro h
    obtain ⟨entry, hentry, rfl⟩ := List.mem_map.mp h
    obtain ⟨hpath, hdistance⟩ := (ancestry_sound ha).2 entry hentry
    exact ⟨entry.2, hdistance, hpath⟩
  · rintro ⟨distance, hdistance, hpath⟩
    have hcut := neverCut_ancestry ha hfew
    obtain ⟨entry, hentry, rfl, -⟩ := exists_member_of_neverCut ha hcut hpath hdistance
    exact List.mem_map_of_mem hentry

theorem Ancestry.contains_iff {a : Ancestry} : a.contains other = true ↔ other ∈ a.types :=
  ⟨Ancestry.mem_of_contains, Ancestry.contains_of_mem⟩

/-- The base chain holds the types in reach that are no interfaces, however many types are above the
type. -/
theorem WellFormed.mem_baseChain_iff (hs : s.WellFormed) {chain : List TypeId}
    (hchain : s.baseChain type = .ok chain) (hother : s.isInterface other = false) :
    other ∈ chain ↔ s.InReach type other := by
  constructor
  · intro h
    obtain ⟨distance, hdistance, hpath⟩ := exists_baseAbove_of_mem hchain h
    exact ⟨distance, hdistance, hpath.above⟩
  · rintro ⟨distance, hdistance, hpath⟩
    exact mem_baseChain hchain (hpath.baseAbove hs hother) hdistance

/-! ## Assignability -/

/-- The target is built from the nullable wrapper, and the candidate is its only argument. -/
def IsNullableForm (s : Store) (target candidate : TypeId) : Prop :=
  ∃ wrapper isOpen, s.roles.nullable = some wrapper ∧
    s.origin? target = some (.instantiation wrapper [candidate] isOpen)

theorem isNullableOf_iff {d : Descriptor} (hd : s.get? target = some d) :
    s.isNullableOf d candidate = true ↔ s.IsNullableForm target candidate := by
  unfold IsNullableForm isNullableOf
  rw [origin?_of_get? hd]
  cases d.origin with
  | instantiation definition args isOpen => simp
  | _ => simp

/-- A type may be stored where itself, the universal root, its nullable form or a type in its reach
is expected, and nowhere else. -/
theorem WellFormed.accepts_iff (hs : s.WellFormed) (htarget : target < s.size)
    (hcandidate : candidate < s.size)
    (hfew : {other | s.WidensTo candidate other}.encard ≤ maxAncestrySize) :
    s.accepts target candidate = .ok true ↔ target = candidate ∨ s.roles.root = some target ∨
      s.IsNullableForm target candidate ∨ s.InReach candidate target := by
  obtain ⟨d, hd⟩ := exists_get? htarget
  have hroot : s.isRoot target = true ↔ s.roles.root = some target := beq_iff_eq
  have hwalks : (if d.isInterface then (s.ancestry candidate).map (·.contains target)
      else (s.baseChain candidate).map (·.contains target)) = .ok true ↔
        s.InReach candidate target := by
    by_cases hinterface : d.isInterface = true
    · obtain ⟨a, ha⟩ := hs.answered_ancestry hcandidate
      rw [if_pos hinterface, ha, ← mem_types_iff ha hfew, ← Ancestry.contains_iff]
      exact iff_of_eq (Except.ok.injEq _ _)
    · have hclass : s.isInterface target = false := by
        rw [Store.isInterface, hd]
        simpa using hinterface
      obtain ⟨chain, hchain⟩ := hs.answered_baseChain hcandidate
      rw [if_neg hinterface, hchain, ← hs.mem_baseChain_iff hchain hclass, ← List.contains_iff_mem]
      exact iff_of_eq (Except.ok.injEq _ _)
  rw [accepts_eq hd hcandidate, ← isNullableOf_iff hd, ← hroot]
  by_cases hspecial :
      target = candidate ∨ s.isRoot target = true ∨ s.isNullableOf d candidate = true
  · rw [if_pos hspecial]
    exact iff_of_true rfl (by tauto)
  · rw [if_neg hspecial, hwalks]
    tauto

/-! ## Types within the limits -/

/-- No limit of a walk hides anything above the type: an ancestry has room for all of it, the type
itself counted, and no part of it is too far away. -/
structure InLimits (s : Store) (type : TypeId) : Prop where
  size : {other | s.WidensTo type other}.encard ≤ maxAncestrySize
  distance : ∀ {other : TypeId}, s.WidensTo type other → s.InReach type other

/-- The ancestry of such a type holds everything that it widens to. -/
theorem InLimits.contains_iff (h : s.InLimits type) {a : Ancestry} (ha : s.ancestry type = .ok a) :
    a.contains other = true ↔ s.WidensTo type other := by
  rw [Ancestry.contains_iff, mem_types_iff ha h.size]
  exact ⟨InReach.widensTo, h.distance⟩

end NominalTypes.Store
