import Mathlib.Data.List.Basic
import Mathlib.Order.Bounds.Basic
import NominalTypes.Proofs.Hierarchy.Reach

/-!
# The order of ancestries

A walk looks above the types of a level in the order of their discovery and enters the supertypes
that are new, so it finds types in the order in which they first occur among the supertypes of those
found before. With this the whole list is determined: the types found are the type itself and the
supertypes of those that have been looked above, one after the other, each at its first occurrence.

- `Store.supertypesOf`, `Store.discovered`: the edges as lists, and the types found as a list.
- `Store.lookAbove_isSuffix`, `Store.walk_isSuffix`: what has been found stays found.
- `Store.InOrder`, `Store.walk_inOrder`: the invariant of a walk and the run of it.
- `Store.DiscoveredBefore`: the order in terms of the types that discover others.
- `Store.BreadthFirst`: all that there is to say of the members of an ancestry.
-/

namespace NominalTypes.Store

variable {s : Store} {type other lower : TypeId} {distance : Nat}
  {found found' : List (TypeId × Nat)}

/-- The direct supertypes of a type; a foreign handle has none. -/
def supertypesOf (s : Store) (type : TypeId) : List TypeId :=
  ((s.get? type).map Descriptor.supertypes).getD []

theorem supertypesOf_of_get? {d : Descriptor} (hd : s.get? type = some d) :
    s.supertypesOf type = d.supertypes := by
  rw [supertypesOf, hd]
  rfl

theorem mem_supertypesOf : other ∈ s.supertypesOf type ↔ s.DirectSupertype type other := by
  unfold supertypesOf DirectSupertype
  cases s.get? type with
  | none => simp
  | some d => simp

/-! ## What has been found stays found -/

theorem lookAbove_isSuffix (h : s.lookAbove distance found lower = .ok found') :
    found <:+ found' :=
  lookAbove_induction (p := fun later => found <:+ later)
    (fun _ _ _ hsuffix _ => hsuffix.trans (List.suffix_cons _ _)) List.suffix_rfl h

theorem foldlM_lookAbove_isSuffix {level : List TypeId}
    (h : level.foldlM (s.lookAbove distance) found = .ok found') : found <:+ found' :=
  foldlM_lookAbove_induction (p := fun later => found <:+ later)
    (fun _ _ _ hsuffix _ => hsuffix.trans (List.suffix_cons _ _)) List.suffix_rfl h

theorem walk_isSuffix {levels : Nat} (h : s.walk levels distance found = .ok found') :
    found <:+ found' :=
  walk_induction (p := fun later => found <:+ later)
    (fun _ _ _ hsuffix _ => hsuffix.trans (List.suffix_cons _ _)) levels List.suffix_rfl h

/-! ## The order of discovery -/

/-- The types found, in the order of their discovery. -/
def discovered (found : List (TypeId × Nat)) : List TypeId := (found.map Prod.fst).reverse

theorem mem_discovered : type ∈ discovered found ↔ type ∈ found.map Prod.fst := List.mem_reverse

theorem discovered_append (later earlier : List (TypeId × Nat)) :
    discovered (later ++ earlier) = discovered earlier ++ discovered later := by
  rw [discovered, List.map_append, List.reverse_append]
  rfl

theorem lookup_isSome_iff : (found.lookup type).isSome = true ↔ type ∈ discovered found := by
  rw [mem_discovered]
  exact Ancestry.contains_iff (a := ⟨[], found⟩)

/-- What occurs again is of no account. -/
theorem eraseDups_append_of_subset {known again : List TypeId} (h : again ⊆ known) :
    (known ++ again).eraseDups = known.eraseDups := by
  have hnone : again.removeAll known = [] := by
    rw [List.removeAll, List.filter_eq_nil_iff]
    exact fun type htype => by simpa using h htype
  rw [List.eraseDups_append, hnone]
  exact List.append_nil _

theorem eraseDups_concat_of_not_mem {known : List TypeId} (h : type ∉ known) :
    (known ++ [type]).eraseDups = known.eraseDups ++ [type] := by
  have hnew : [type].removeAll known = [type] := by simpa [List.removeAll] using h
  rw [List.eraseDups_append, hnew]
  rfl

/-- Types that are entered unless they are known already are discovered where they occur first. -/
theorem discovered_foldl (uppers : List TypeId) :
    ∀ {found : List (TypeId × Nat)} {known : List TypeId}, discovered found = known.eraseDups →
      discovered (uppers.foldl
        (fun found t => if (found.lookup t).isSome then found else (t, distance) :: found) found) =
          (known ++ uppers).eraseDups := by
  induction uppers with
  | nil => exact fun h => by rw [List.append_nil]; exact h
  | cons upper uppers ih =>
    intro found known h
    have hmem : (found.lookup upper).isSome = true ↔ upper ∈ known := by
      rw [lookup_isSome_iff, h, List.mem_eraseDups]
    rw [List.foldl_cons, List.append_cons]
    refine ih ?_
    split
    · next hknown =>
      rw [h, eraseDups_append_of_subset (List.cons_subset.mpr
        ⟨hmem.mp hknown, List.nil_subset known⟩)]
    · next hnew =>
      rw [eraseDups_concat_of_not_mem (hmem.not.mp hnew), ← h]
      exact List.reverse_cons

/-- Looking above a type discovers its supertypes where they are new. Where the limit keeps the walk
from looking, nothing would be new. -/
theorem discovered_lookAbove {known : List TypeId} (hcut : s.NeverCut found)
    (hlower : lower ∈ discovered found) (hfound : discovered found = known.eraseDups)
    (h : s.lookAbove distance found lower = .ok found') :
    discovered found' = (known ++ s.supertypesOf lower).eraseDups := by
  unfold lookAbove at h
  split at h
  · next hmany =>
    cases h
    rw [hfound, eraseDups_append_of_subset]
    intro upper hupper
    obtain ⟨entry, hentry, rfl⟩ := List.mem_map.mp (mem_discovered.mp hlower)
    have hknown := hcut found List.suffix_rfl hmany entry hentry upper (mem_supertypesOf.mp hupper)
    rwa [← mem_discovered, hfound, List.mem_eraseDups] at hknown
  · obtain ⟨d, hd, hall⟩ := bind_eq_ok.mp h
    cases hall
    rw [supertypesOf_of_get? (descriptor_eq_ok.mp hd)]
    exact discovered_foldl d.supertypes hfound

/-- So does looking above all types of a level, one after the other. -/
theorem discovered_foldlM {level : List TypeId} :
    ∀ {found : List (TypeId × Nat)} {known : List TypeId}, s.NeverCut found' →
      (∀ lower ∈ level, lower ∈ discovered found) → discovered found = known.eraseDups →
      level.foldlM (s.lookAbove distance) found = .ok found' →
      discovered found' = (known ++ level.flatMap s.supertypesOf).eraseDups := by
  induction level with
  | nil =>
    intro found known _ _ hfound h
    cases h
    rw [hfound, List.flatMap_nil, List.append_nil]
  | cons lower level ih =>
    intro found known hcut hlevel hfound h
    rw [List.foldlM_cons] at h
    obtain ⟨next, hstep, hrest⟩ := bind_eq_ok.mp h
    obtain ⟨hlower, hlevel⟩ := List.forall_mem_cons.mp hlevel
    have hsuffix := lookAbove_isSuffix hstep
    have hbefore := hcut.of_isSuffix (hsuffix.trans (foldlM_lookAbove_isSuffix hrest))
    have hnext := discovered_lookAbove hbefore hlower hfound hstep
    rw [List.flatMap_cons, ← List.append_assoc]
    refine ih hcut (fun lower' hmem => ?_) hnext hrest
    exact mem_discovered.mpr ((hsuffix.map Prod.fst).subset (mem_discovered.mp (hlevel lower' hmem)))

/-! ## The whole walk -/

/-- The types found are in the order of their distances, the farthest first. They are the type at
the start and, in the order in which these occur first, the supertypes of those that are nearer than
the distance. -/
structure InOrder (s : Store) (type : TypeId) (distance : Nat) (found : List (TypeId × Nat)) :
    Prop where
  sorted : found.Pairwise fun later earlier => earlier.2 ≤ later.2
  discovered : discovered found = (type ::
    (Store.discovered (found.filter (·.2 < distance))).flatMap s.supertypesOf).eraseDups

/-- The last level stands in front of the nearer types. -/
theorem eq_lastLevel_append (hsorted : found.Pairwise fun later earlier => earlier.2 ≤ later.2)
    (hfound : ∀ entry ∈ found, entry.2 ≤ distance) :
    found = found.takeWhile (·.2 == distance) ++ found.filter (·.2 < distance) := by
  induction found with
  | nil => rfl
  | cons first rest ih =>
    obtain ⟨hfirst, hrest⟩ := List.pairwise_cons.mp hsorted
    obtain ⟨hle, hfound⟩ := List.forall_mem_cons.mp hfound
    by_cases hlast : first.2 = distance
    · rw [List.takeWhile_cons_of_pos (by simpa using hlast),
        List.filter_cons_of_neg (by simp [hlast]), List.cons_append, ← ih hrest hfound]
    · have hnear : first.2 < distance := Nat.lt_of_le_of_ne hle hlast
      rw [List.takeWhile_cons_of_neg (by simpa using hlast), List.nil_append, List.filter_eq_self.mpr]
      refine List.forall_mem_cons.mpr ⟨decide_eq_true hnear, fun entry hentry => ?_⟩
      exact decide_eq_true (Nat.lt_of_le_of_lt (hfirst entry hentry) hnear)

theorem discovered_eq_append (hsorted : found.Pairwise fun later earlier => earlier.2 ≤ later.2)
    (hfound : ∀ entry ∈ found, entry.2 ≤ distance) :
    discovered found =
      discovered (found.filter (·.2 < distance)) ++ lastLevel distance found := by
  conv_lhs => rw [eq_lastLevel_append hsorted hfound]
  exact discovered_append _ _

namespace InOrder

theorem start (s : Store) (type : TypeId) : s.InOrder type 0 [(type, 0)] :=
  ⟨List.pairwise_singleton _ _, rfl⟩

/-- Where nothing is at the distance, the walk is at its end, however much farther it might go. -/
theorem of_lastLevel_eq_nil (h : s.InOrder type distance found)
    (hfound : ∀ entry ∈ found, entry.2 ≤ distance) (hempty : lastLevel distance found = [])
    {distance' : Nat} (hle : distance ≤ distance') : s.InOrder type distance' found := by
  have hlevel : found.takeWhile (·.2 == distance) = [] := by simpa [lastLevel] using hempty
  have hall : found.filter (·.2 < distance) = found := by
    have hsplit := eq_lastLevel_append h.sorted hfound
    rw [hlevel, List.nil_append] at hsplit
    exact hsplit.symm
  have hall' : found.filter (·.2 < distance') = found :=
    List.filter_eq_self.mpr fun entry hentry => decide_eq_true
      (Nat.lt_of_lt_of_le (of_decide_eq_true (List.filter_eq_self.mp hall entry hentry)) hle)
  have hdiscovered := h.discovered
  rw [hall] at hdiscovered
  exact ⟨h.sorted, by rw [hall']; exact hdiscovered⟩

/-- One more level is looked above. -/
theorem next (h : s.InOrder type distance found) (hfound : ∀ entry ∈ found, entry.2 ≤ distance)
    (hcut : s.NeverCut found')
    (hstep : (lastLevel distance found).foldlM (s.lookAbove distance) found = .ok found') :
    s.InOrder type (distance + 1) found' := by
  have hmore := (foldlM_lookAbove_complete
    (fun entry hentry => Nat.le_succ_of_le (hfound entry hentry)) hstep).1
  have hdiscovered := discovered_foldlM hcut
    (fun _ hlower => mem_discovered.mpr (mem_of_mem_lastLevel hlower)) h.discovered hstep
  refine ⟨hmore.sorted h.sorted fun entry hentry => Nat.le_succ_of_le (hfound entry hentry), ?_⟩
  -- the types that are now nearer are all that had been found before
  have hnearer : found'.filter (·.2 < distance + 1) = found := by
    obtain ⟨new, rfl, hnew⟩ := hmore
    rw [List.filter_append, List.filter_eq_nil_iff.mpr, List.nil_append, List.filter_eq_self.mpr]
    · exact fun entry hentry => decide_eq_true (Nat.lt_succ_of_le (hfound entry hentry))
    · exact fun entry hentry => by simp [hnew entry hentry]
  rw [hdiscovered, hnearer, discovered_eq_append h.sorted hfound, List.flatMap_append,
    List.cons_append]

end InOrder

/-- A walk that is not cut short finds types in order. -/
theorem walk_inOrder (levels : Nat) :
    ∀ {distance : Nat} {found : List (TypeId × Nat)}, s.InOrder type distance found →
      (∀ entry ∈ found, entry.2 ≤ distance) → s.NeverCut found' →
      s.walk levels distance found = .ok found' → s.InOrder type (distance + levels) found' := by
  induction levels with
  | zero =>
    intro distance found h _ _ hwalk
    cases hwalk
    exact h
  | succ levels ih =>
    intro distance found h hfound hcut hwalk
    rw [walk_succ] at hwalk
    split at hwalk
    · next hempty =>
      cases hwalk
      exact h.of_lastLevel_eq_nil hfound hempty (Nat.le_add_right _ _)
    obtain ⟨next, hstep, hrest⟩ := bind_eq_ok.mp hwalk
    have hmore := (foldlM_lookAbove_complete
      (fun entry hentry => Nat.le_succ_of_le (hfound entry hentry)) hstep).1
    rw [Nat.add_comm levels 1, ← Nat.add_assoc]
    exact ih (h.next hfound (hcut.of_isSuffix (walk_isSuffix hrest)) hstep)
      (hmore.le fun entry hentry => Nat.le_succ_of_le (hfound entry hentry)) hcut hrest

/-! ## Who discovers whom -/

/-- Without repetitions the types of a list stand in the order in which they first occur. -/
theorem pairwise_eraseDups (types : List TypeId) :
    types.eraseDups.Pairwise fun earlier later => types.idxOf earlier < types.idxOf later := by
  induction types using List.reverseRecOn with
  | nil => exact .nil
  | append_singleton types type ih =>
    have hsame : ∀ x ∈ types.eraseDups, (types ++ [type]).idxOf x = types.idxOf x := fun x hx =>
      List.idxOf_append_of_mem (List.mem_eraseDups.mp hx)
    have hkept : types.eraseDups.Pairwise fun earlier later =>
        (types ++ [type]).idxOf earlier < (types ++ [type]).idxOf later :=
      ih.imp_of_mem fun hearlier hlater hlt => by rwa [hsame _ hearlier, hsame _ hlater]
    by_cases hmem : type ∈ types
    · rw [eraseDups_append_of_subset (List.cons_subset.mpr ⟨hmem, List.nil_subset types⟩)]
      exact hkept
    · rw [eraseDups_concat_of_not_mem hmem]
      refine List.pairwise_append.mpr ⟨hkept, List.pairwise_singleton _ _, ?_⟩
      intro earlier hearlier later hlater
      rw [List.mem_singleton.mp hlater, hsame earlier hearlier, List.idxOf_append_of_notMem hmem]
      exact Nat.lt_add_right _ (List.idxOf_lt_length_iff.mpr (List.mem_eraseDups.mp hearlier))

theorem nodup_eraseDups (types : List TypeId) : types.eraseDups.Nodup :=
  (pairwise_eraseDups types).imp fun hlt heq => Nat.ne_of_lt hlt (congrArg types.idxOf heq)

/-- The first of some types that has the type among its direct supertypes. -/
def discoverer? (s : Store) (types : List TypeId) (type : TypeId) : Option TypeId :=
  types.find? fun lower => (s.supertypesOf lower).contains type

/-- Both types are direct supertypes of some of the types, and the first of them that has the one
type stands in front of the first that has the other one; or it is the same, and has them in this
order among its direct supertypes. -/
def DiscoveredBefore (s : Store) (types : List TypeId) (type other : TypeId) : Prop :=
  ∃ lower lower', s.discoverer? types type = some lower ∧
    s.discoverer? types other = some lower' ∧
    (types.idxOf lower < types.idxOf lower' ∨ lower = lower' ∧
      (s.supertypesOf lower).idxOf type < (s.supertypesOf lower).idxOf other)

theorem discoverer?_eq_some {types : List TypeId} (h : s.discoverer? types type = some lower) :
    lower ∈ types ∧ type ∈ s.supertypesOf lower := by
  refine ⟨List.mem_of_find?_eq_some h, ?_⟩
  have hmem := List.find?_some h
  rwa [List.contains_iff_mem] at hmem

theorem exists_discoverer? {types : List TypeId} (h : type ∈ types.flatMap s.supertypesOf) :
    ∃ lower, s.discoverer? types type = some lower := by
  obtain ⟨lower, hlower, hmem⟩ := List.mem_flatMap.mp h
  have hsome : (s.discoverer? types type).isSome = true :=
    List.find?_isSome.mpr ⟨lower, hlower, List.contains_iff_mem.mpr hmem⟩
  exact Option.isSome_iff_exists.mp hsome

theorem discoverer?_cons_of_mem {types : List TypeId} (h : type ∈ s.supertypesOf lower) :
    s.discoverer? (lower :: types) type = some lower :=
  List.find?_cons_of_pos (List.contains_iff_mem.mpr h)

theorem discoverer?_cons_of_not_mem {types : List TypeId} (h : type ∉ s.supertypesOf lower) :
    s.discoverer? (lower :: types) type = s.discoverer? types type :=
  List.find?_cons_of_neg fun hmem => h (List.contains_iff_mem.mp hmem)

/-- The order of first occurrences among the supertypes of some types is that of discovery. -/
theorem discoveredBefore_of_idxOf_lt {types : List TypeId}
    (htype : type ∈ types.flatMap s.supertypesOf) (hother : other ∈ types.flatMap s.supertypesOf)
    (hlt : (types.flatMap s.supertypesOf).idxOf type < (types.flatMap s.supertypesOf).idxOf other) :
    s.DiscoveredBefore types type other := by
  induction types with
  | nil => cases htype
  | cons first types ih =>
    rw [List.flatMap_cons] at htype hother hlt
    -- what the first type does not have is discovered by another one
    have hne : ∀ {x lower}, x ∉ s.supertypesOf first → s.discoverer? types x = some lower →
        first ≠ lower := by
      rintro x _ hx hlower rfl
      exact hx (discoverer?_eq_some hlower).2
    by_cases hhas : type ∈ s.supertypesOf first
    · by_cases hhas' : other ∈ s.supertypesOf first
      · rw [List.idxOf_append_of_mem hhas, List.idxOf_append_of_mem hhas'] at hlt
        exact ⟨first, first, discoverer?_cons_of_mem hhas, discoverer?_cons_of_mem hhas',
          .inr ⟨rfl, hlt⟩⟩
      · obtain ⟨lower, hlower⟩ :=
          exists_discoverer? ((List.mem_append.mp hother).resolve_left hhas')
        refine ⟨first, lower, discoverer?_cons_of_mem hhas,
          (discoverer?_cons_of_not_mem hhas').trans hlower, .inl ?_⟩
        rw [List.idxOf_cons_self, List.idxOf_cons_ne _ (hne hhas' hlower)]
        exact Nat.succ_pos _
    · have hhas' : other ∉ s.supertypesOf first := by
        intro hhas'
        rw [List.idxOf_append_of_notMem hhas, List.idxOf_append_of_mem hhas'] at hlt
        have hinside := List.idxOf_lt_length_iff.mpr hhas'
        omega
      rw [List.idxOf_append_of_notMem hhas, List.idxOf_append_of_notMem hhas'] at hlt
      obtain ⟨lower, lower', hlower, hlower', hbefore⟩ :=
        ih ((List.mem_append.mp htype).resolve_left hhas)
          ((List.mem_append.mp hother).resolve_left hhas') (Nat.lt_of_add_lt_add_left hlt)
      refine ⟨lower, lower', (discoverer?_cons_of_not_mem hhas).trans hlower,
        (discoverer?_cons_of_not_mem hhas').trans hlower', hbefore.imp_left fun hbefore => ?_⟩
      rw [List.idxOf_cons_ne _ (hne hhas hlower), List.idxOf_cons_ne _ (hne hhas' hlower')]
      exact Nat.succ_lt_succ hbefore

/-- Types that are listed later do not discover what has been discovered. -/
theorem DiscoveredBefore.append {types : List TypeId} (h : s.DiscoveredBefore types type other)
    (later : List TypeId) : s.DiscoveredBefore (types ++ later) type other := by
  obtain ⟨lower, lower', hlower, hlower', hbefore⟩ := h
  have hsame : ∀ {x y}, s.discoverer? types x = some y →
      s.discoverer? (types ++ later) x = some y := fun hy => by
    unfold discoverer? at hy ⊢
    rw [List.find?_append, hy, Option.some_or]
  refine ⟨lower, lower', hsame hlower, hsame hlower', hbefore.imp_left fun hbefore => ?_⟩
  rwa [List.idxOf_append_of_mem (discoverer?_eq_some hlower).1,
    List.idxOf_append_of_mem (discoverer?_eq_some hlower').1]

/-- All types but the one at the start are found in the order of their discoverers. -/
theorem InOrder.pairwise_tail (h : s.InOrder type distance found)
    (hfound : ∀ entry ∈ found, entry.2 ≤ distance) :
    (Store.discovered found).tail.Pairwise (s.DiscoveredBefore (Store.discovered found)) := by
  have hsplit := discovered_eq_append h.sorted hfound
  generalize hlooked : Store.discovered (found.filter (·.2 < distance)) = looked at hsplit
  have hdiscovered := h.discovered
  rw [hlooked] at hdiscovered
  have hpairwise := pairwise_eraseDups (type :: looked.flatMap s.supertypesOf)
  have hmem : ∀ x ∈ (Store.discovered found).tail,
      x ∈ looked.flatMap s.supertypesOf ∧ type ≠ x := by
    intro x hx
    rw [hdiscovered, List.eraseDups_cons, List.tail_cons, List.mem_eraseDups, List.mem_filter] at hx
    exact ⟨hx.1, fun heq => by simp [heq] at hx⟩
  rw [← hdiscovered] at hpairwise
  refine (hpairwise.sublist (List.tail_sublist _)).imp_of_mem fun {x y} hx hy hlt => ?_
  obtain ⟨hx, hxne⟩ := hmem x hx
  obtain ⟨hy, hyne⟩ := hmem y hy
  rw [List.idxOf_cons_ne _ hxne, List.idxOf_cons_ne _ hyne] at hlt
  rw [hsplit]
  exact (discoveredBefore_of_idxOf_lt hx hy (Nat.lt_of_succ_lt_succ hlt)).append _

/-! ## Ancestries -/

/-- A type is the first member of its own ancestry. -/
theorem head?_members {a : Ancestry} (ha : s.ancestry type = .ok a) :
    a.members.head? = some (type, 0) := by
  obtain ⟨chain, -, ha⟩ := bind_eq_ok.mp ha
  obtain ⟨found, hwalk, ha⟩ := bind_eq_ok.mp ha
  cases ha
  obtain ⟨later, rfl⟩ := walk_isSuffix hwalk
  rw [List.reverse_append]
  rfl

/-- The members are listed breadth-first: the type itself, and then everything in its reach, each
type once and with the length of a shortest path to it, the nearer ones first, and in the order of
their discoverers. -/
structure BreadthFirst (s : Store) (type : TypeId) (members : List (TypeId × Nat)) : Prop where
  head : members.head? = some (type, 0)
  nodup : (members.map Prod.fst).Nodup
  reach : ∀ other, other ∈ members.map Prod.fst ↔ s.InReach type other
  shortest : ∀ other distance, (other, distance) ∈ members ↔
    distance ≤ maxDistance ∧ IsLeast {length | s.Above type length other} distance
  sorted : members.Pairwise fun earlier later => earlier.2 ≤ later.2
  order : (members.map Prod.fst).tail.Pairwise (s.DiscoveredBefore (members.map Prod.fst))

/-- The distance of a member is the length of a shortest path. -/
theorem mem_members_iff {a : Ancestry} (ha : s.ancestry type = .ok a)
    (hfew : {other | s.WidensTo type other}.encard ≤ maxAncestrySize) :
    (other, distance) ∈ a.members ↔
      distance ≤ maxDistance ∧ IsLeast {length | s.Above type length other} distance := by
  have hsound := (ancestry_sound ha).2
  have hcomplete : ∀ {length}, s.Above type length other → length ≤ maxDistance →
      ∃ nearer ≤ length, (other, nearer) ∈ a.members := by
    intro length hpath hlength
    obtain ⟨⟨_, nearer⟩, hentry, rfl, hle⟩ :=
      exists_member_of_neverCut ha (neverCut_ancestry ha hfew) hpath hlength
    exact ⟨nearer, hle, hentry⟩
  constructor
  · intro hmember
    obtain ⟨hpath, hdistance⟩ := hsound _ hmember
    refine ⟨hdistance, hpath, fun length hlength => ?_⟩
    by_cases hshort : length ≤ maxDistance
    · obtain ⟨nearer, hle, hmember'⟩ := hcomplete hlength hshort
      -- no type is listed twice
      have heq := List.inj_on_of_nodup_map (ancestry_nodup ha) hmember hmember' rfl
      cases heq
      exact hle
    · exact hdistance.trans (Nat.le_of_not_le hshort)
  · rintro ⟨hdistance, hpath, hleast⟩
    obtain ⟨nearer, hle, hmember⟩ := hcomplete hpath hdistance
    rwa [Nat.le_antisymm (hleast (hsound _ hmember).1) hle]

/-- An ancestry with room for everything above a type is listed breadth-first. -/
theorem breadthFirst_ancestry {a : Ancestry} (ha : s.ancestry type = .ok a)
    (hfew : {other | s.WidensTo type other}.encard ≤ maxAncestrySize) :
    s.BreadthFirst type a.members := by
  have hcut := neverCut_ancestry ha hfew
  have hsound := (ancestry_sound ha).2
  have horder : s.InOrder type maxDistance a.members.reverse := by
    obtain ⟨chain, -, ha⟩ := bind_eq_ok.mp ha
    obtain ⟨found, hwalk, ha⟩ := bind_eq_ok.mp ha
    cases ha
    rw [List.reverse_reverse] at hcut ⊢
    have hwalked := walk_inOrder maxDistance (.start s type) (by simp) hcut hwalk
    rwa [Nat.zero_add] at hwalked
  have hdiscovered : discovered a.members.reverse = a.members.map Prod.fst := by
    rw [discovered, List.map_reverse, List.reverse_reverse]
  refine ⟨head?_members ha, ancestry_nodup ha, fun _ => mem_types_iff ha hfew,
    fun _ _ => mem_members_iff ha hfew, List.pairwise_reverse.mp horder.sorted, ?_⟩
  rw [← hdiscovered]
  exact horder.pairwise_tail fun entry hentry => (hsound entry (List.mem_reverse.mp hentry)).2

end NominalTypes.Store
