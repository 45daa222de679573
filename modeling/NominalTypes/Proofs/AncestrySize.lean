import NominalTypes.Proofs.Building.Accepted
import NominalTypes.Proofs.Hierarchy.Order
import Std.Data.String.ToNat

/-!
# How large ancestries are

Whether too many types are known is asked before a type is looked above, and not for each of its
supertypes. So an ancestry that reaches the limit goes beyond it by as many types as are new above
the one that was looked above last. The type itself is always looked above, and a declaration may
list any number of interfaces, so there is no bound to the size of ancestries.

- `Store.walk_steps`: what looking above a type that has been found keeps true, a walk keeps true.
- `Store.ExceedsAt`: types that are fewer than the limit, and those above one of them.
- `Store.Reachable.size_ancestry`: the main result.
- `Store.size_ancestry_fan`: a type with more interfaces than the limit.
-/

namespace NominalTypes

namespace Store

variable {s : Store} {type lower : TypeId} {distance : Nat} {found found' : List (TypeId × Nat)}

/-! ## Looking above one type after the other -/

section Steps

variable {p : List (TypeId × Nat) → Prop}
  (hstep : ∀ distance found found' lower, p found → lower ∈ discovered found →
    s.lookAbove distance found lower = .ok found' → p found')

include hstep

theorem foldlM_lookAbove_steps {level : List TypeId} :
    ∀ {found : List (TypeId × Nat)}, p found → (∀ lower ∈ level, lower ∈ discovered found) →
      level.foldlM (s.lookAbove distance) found = .ok found' → p found' := by
  induction level with
  | nil =>
    intro found hfound _ h
    cases h
    exact hfound
  | cons lower level ih =>
    intro found hfound hlevel h
    rw [List.foldlM_cons] at h
    obtain ⟨next, hlower, hrest⟩ := bind_eq_ok.mp h
    obtain ⟨hmem, hlevel⟩ := List.forall_mem_cons.mp hlevel
    refine ih (hstep _ _ _ _ hfound hmem hlower) (fun other hother => ?_) hrest
    exact mem_discovered.mpr (((lookAbove_isSuffix hlower).map Prod.fst).subset
      (mem_discovered.mp (hlevel other hother)))

/-- What looking above a type that has been found keeps true, a walk keeps true. -/
theorem walk_steps (levels : Nat) :
    ∀ {distance : Nat} {found : List (TypeId × Nat)}, p found →
      s.walk levels distance found = .ok found' → p found' := by
  induction levels with
  | zero =>
    intro distance found hfound h
    cases h
    exact hfound
  | succ levels ih =>
    intro distance found hfound h
    rw [walk_succ] at h
    split at h
    · cases h
      exact hfound
    obtain ⟨next, hlevel, hrest⟩ := bind_eq_ok.mp h
    refine ih (foldlM_lookAbove_steps hstep hfound (fun lower hlower => ?_) hlevel) hrest
    exact mem_discovered.mpr (mem_of_mem_lastLevel hlower)

end Steps

/-! ## At the limit -/

theorem eraseDups_of_nodup {types : List TypeId} (h : types.Nodup) : types.eraseDups = types := by
  induction types using List.reverseRecOn with
  | nil => rfl
  | append_singleton types type ih =>
    obtain ⟨htypes, -, hne⟩ := List.nodup_append.mp h
    rw [eraseDups_concat_of_not_mem fun hmem => hne type hmem type List.mem_cons_self rfl,
      ih htypes]

/-- The types are some that are fewer than the limit and, behind them, what is new above one of
these. -/
structure ExceedsAt (s : Store) (types known : List TypeId) (last : TypeId) : Prop where
  few : known.length < maxAncestrySize
  mem : last ∈ known
  isPrefix : known <+: types
  types : types = (known ++ s.supertypesOf last).eraseDups

theorem ExceedsAt.length_lt {types known : List TypeId} {last : TypeId}
    (h : s.ExceedsAt types known last) :
    types.length < maxAncestrySize + (s.supertypesOf last).length := by
  have hsubset : types ⊆ known ++ s.supertypesOf last := fun other hother => by
    rw [h.types] at hother
    exact List.mem_eraseDups.mp hother
  have hnodup : types.Nodup := h.types ▸ nodup_eraseDups _
  have hle := hnodup.length_le_of_subset hsubset
  rw [List.length_append] at hle
  exact Nat.lt_of_le_of_lt hle (Nat.add_lt_add_right h.few _)

/-- The types found are fewer than the limit, or looking above one of them made them as many. -/
def StaysNear (s : Store) (found : List (TypeId × Nat)) : Prop :=
  (discovered found).Nodup ∧ ((discovered found).length < maxAncestrySize ∨
    ∃ known last, s.ExceedsAt (discovered found) known last)

theorem StaysNear.lookAbove (h : s.StaysNear found) (hlower : lower ∈ discovered found)
    (hstep : s.lookAbove distance found lower = .ok found') : s.StaysNear found' := by
  have hlength : (discovered found).length = found.length := by
    rw [discovered, List.length_reverse, List.length_map]
  by_cases hfew : found.length < maxAncestrySize
  · have hnext := discovered_lookAbove (neverCut_of_length_lt hfew) hlower
      (eraseDups_of_nodup h.1).symm hstep
    refine ⟨hnext ▸ nodup_eraseDups _, .inr ⟨discovered found, lower, ?_, hlower, ?_, hnext⟩⟩
    · exact hlength ▸ hfew
    · rw [hnext, List.eraseDups_append, eraseDups_of_nodup h.1]
      exact List.prefix_append _ _
  · -- nothing is looked above any more
    rw [Store.lookAbove, if_pos (Nat.le_of_not_lt hfew)] at hstep
    cases hstep
    exact h

/-- The types of an ancestry are those that a walk finds, in the order of their discovery. -/
theorem exists_walk_of_ancestry {a : Ancestry} (ha : s.ancestry type = .ok a) :
    ∃ found, s.walk maxDistance 0 [(type, 0)] = .ok found ∧ a.types = discovered found := by
  obtain ⟨chain, -, ha⟩ := bind_eq_ok.mp ha
  obtain ⟨found, hwalk, ha⟩ := bind_eq_ok.mp ha
  cases ha
  exact ⟨found, hwalk, List.map_reverse⟩

/-- What is directly above a type is in its ancestry, whatever the limit, for a walk looks above the
type first of all. -/
theorem supertypesOf_subset_types {a : Ancestry} (ha : s.ancestry type = .ok a) :
    s.supertypesOf type ⊆ a.types := by
  obtain ⟨found, hwalk, htypes⟩ := exists_walk_of_ancestry ha
  have hlevel : lastLevel 0 [(type, 0)] = [type] := rfl
  rw [show maxDistance = 255 + 1 from rfl, walk_succ, hlevel] at hwalk
  obtain ⟨next, hstep, hrest⟩ := bind_eq_ok.mp hwalk
  rw [List.foldlM_cons] at hstep
  obtain ⟨_, hfirst, hnil⟩ := bind_eq_ok.mp hstep
  cases hnil
  have hroom : [(type, 0)].length < maxAncestrySize := (by decide : 1 < maxAncestrySize)
  have hnext : discovered next = ([type] ++ s.supertypesOf type).eraseDups :=
    discovered_lookAbove (neverCut_of_length_lt hroom) List.mem_cons_self rfl hfirst
  intro upper hupper
  have hmem : upper ∈ discovered next := by
    rw [hnext]
    exact List.mem_eraseDups.mpr (List.mem_append_right _ hupper)
  rw [htypes, mem_discovered]
  exact ((walk_isSuffix hrest).map Prod.fst).subset (mem_discovered.mp hmem)

/-! ## A class with many interfaces -/

/-- The name of an interface in a numbered series. -/
def fanName (i : Nat) : String := "F" ++ toString i

/-- The names of some interfaces. -/
def fanNames (count : Nat) : List String := (List.range count).map fanName

/-- A class that lists them all. -/
def fanClass (count : Nat) : Declaration :=
  { Declaration.plain .classType "Fan" with interfaces := fanNames count }

/-- Some interfaces and a class that has them all. -/
def fan (count : Nat) : Store :=
  Store.empty.afterAll ((fanNames count).map (fun name => .declare (.plain .interface name)) ++
    [.declare (fanClass count)])

theorem reachable_fan (count : Nat) : (fan count).Reachable := Reachable.empty.afterAll _

theorem toList_fanName (i : Nat) : (fanName i).toList = 'F' :: Nat.toDigits 10 i := by
  rw [fanName, String.toList_append, show toString i = i.repr from rfl, Nat.toList_repr]
  rfl

theorem isDigit_of_mem {i : Nat} {c : Char} (hc : c ∈ Nat.toDigits 10 i) : c.isDigit = true :=
  Nat.isDigit_of_mem_toDigits (by decide) (by decide) hc

theorem isTypeName_fanName (i : Nat) :
    IsTypeName (fanName i) ∧ '.' ∉ (fanName i).toList := by
  have hdot : '.' ∉ (fanName i).toList := by
    rw [toList_fanName, List.mem_cons]
    rintro (heq | hmem)
    · cases heq
    · cases isDigit_of_mem hmem
  refine ⟨.of_not_mem_dot ?_ ?_ hdot ?_, hdot⟩ <;> rw [toList_fanName]
  · exact List.cons_ne_nil _ _
  · refine List.forall_mem_cons.mpr ⟨by decide, fun c hc => ?_⟩
    exact isNameChar_of_isDigit (isDigit_of_mem hc)
  · rintro c ⟨⟩
    rfl

theorem nodup_fanNames (count : Nat) : (fanNames count).Nodup :=
  List.nodup_range.map fun _ _ heq => Nat.repr_inj.mp ((String.append_right_inj _).mp heq)

theorem fan_not_mem_fanNames (count : Nat) : "Fan" ∉ fanNames count := by
  intro hmem
  obtain ⟨i, -, heq⟩ := List.mem_map.mp hmem
  have hchars : ['F', 'a', 'n'] = 'F' :: Nat.toDigits 10 i := by
    rw [← toList_fanName, heq]
    rfl
  have hletter : 'a' ∈ Nat.toDigits 10 i := by
    rw [← (List.cons.inj hchars).2]
    exact List.mem_cons_self
  cases isDigit_of_mem hletter

/-- The class is in a store with so many interfaces, and has them all. -/
theorem supertypesOf_fan (count : Nat) :
    count < (fan count).size ∧ ∀ i < count, i ∈ (fan count).supertypesOf count := by
  have hlength : (fanNames count).length = count := by
    rw [fanNames, List.length_map, List.length_range]
  have hnames : ∀ name ∈ fanNames count, IsTypeName name ∧ '.' ∉ name.toList := by
    intro name hname
    obtain ⟨i, -, rfl⟩ := List.mem_map.mp hname
    exact isTypeName_fanName i
  have hholds := HoldsInterfaces.afterAll hnames (nodup_fanNames count)
  have hname : IsTypeName "Fan" ∧ '.' ∉ "Fan".toList := by decide +kernel
  have hfault : (fanClass count).fault? = none :=
    Declaration.fault?_eq_none hname.1 hname.2 nofun rfl rfl rfl
  obtain ⟨e, he, hinterfaces⟩ := hholds.exists_get?_declare (d := fanClass count)
    (fun name hname => (hnames name hname).1) hfault rfl rfl (fan_not_mem_fanNames count)
  rw [hholds.size, hlength] at he hinterfaces
  have hget : (fan count).get? count = some e := by
    rw [fan, afterAll_append]
    exact he
  refine ⟨lt_of_get? hget, fun i hi => ?_⟩
  rw [supertypesOf_of_get? hget]
  exact Descriptor.mem_supertypes_of_mem (hinterfaces i hi)

/-- The ancestry of the class is larger than the number of its interfaces, however many they are. -/
theorem lt_size_ancestry_fan (count : Nat) :
    ∃ a, (fan count).ancestry count = .ok a ∧ count < a.size := by
  obtain ⟨hknown, habove⟩ := supertypesOf_fan count
  obtain ⟨a, ha⟩ := (reachable_fan count).coherent.wellFormed.answered_ancestry hknown
  refine ⟨a, ha, ?_⟩
  have hsubset : List.range (count + 1) ⊆ a.types := by
    intro i hi
    rcases Nat.lt_succ_iff_lt_or_eq.mp (List.mem_range.mp hi) with hlt | rfl
    · exact supertypesOf_subset_types ha (habove i hlt)
    · exact mem_types_self ha
  have hle := List.nodup_range.length_le_of_subset hsubset
  rwa [List.length_range, Ancestry.types, List.length_map] at hle

/-! ## Sizes -/

/-- An ancestry holds each type once. All that is directly above the type is in it. If it is as
large as the limit, then what goes beyond the limit is above the type that was looked above last. -/
theorem Reachable.size_ancestry (hs : s.Reachable) (htype : type < s.size) :
    ∃ a, s.ancestry type = .ok a ∧ a.types.Nodup ∧ s.supertypesOf type ⊆ a.types ∧
      (maxAncestrySize ≤ a.size → ∃ known last, s.ExceedsAt a.types known last ∧
        a.size < maxAncestrySize + (s.supertypesOf last).length) := by
  obtain ⟨a, ha⟩ := hs.coherent.wellFormed.answered_ancestry htype
  refine ⟨a, ha, ancestry_nodup ha, supertypesOf_subset_types ha, fun hmany => ?_⟩
  obtain ⟨found, hwalk, htypes⟩ := exists_walk_of_ancestry ha
  have hstart : s.StaysNear [(type, 0)] :=
    ⟨List.nodup_singleton _, .inl (by decide : 1 < maxAncestrySize)⟩
  have hnear : s.StaysNear found :=
    walk_steps (fun _ _ _ _ h hlower hstep => h.lookAbove hlower hstep) maxDistance hstart hwalk
  have hsize : a.types.length = a.size := List.length_map _
  rcases hnear.2 with hfew | ⟨known, last, hexceeds⟩
  · rw [← htypes, hsize] at hfew
    exact absurd hmany (Nat.not_le_of_lt hfew)
  · rw [← htypes] at hexceeds
    exact ⟨known, last, hexceeds, hsize ▸ hexceeds.length_lt⟩

/-- The limit is reached above the class with as many interfaces. -/
theorem size_ancestry_fan : ∃ a known last,
    (fan maxAncestrySize).ancestry maxAncestrySize = .ok a ∧ maxAncestrySize < a.size ∧
      (fan maxAncestrySize).ExceedsAt a.types known last := by
  obtain ⟨a, ha, -, -, hexceeds⟩ :=
    (reachable_fan maxAncestrySize).size_ancestry (supertypesOf_fan maxAncestrySize).1
  obtain ⟨b, hb, hlt⟩ := lt_size_ancestry_fan maxAncestrySize
  cases ha.symm.trans hb
  obtain ⟨known, last, hknown, -⟩ := hexceeds (Nat.le_of_lt hlt)
  exact ⟨a, known, last, ha, hlt, hknown⟩

/-- So an ancestry may hold more types than the limit. -/
theorem not_bounded : (fan maxAncestrySize).Reachable ∧
    maxAncestrySize < (fan maxAncestrySize).size ∧
    ∃ a, (fan maxAncestrySize).ancestry maxAncestrySize = .ok a ∧ maxAncestrySize < a.size :=
  ⟨reachable_fan _, (supertypesOf_fan _).1, lt_size_ancestry_fan _⟩

end Store

end NominalTypes
