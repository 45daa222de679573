import NominalTypes.Proofs.Hierarchy.Supertypes

/-!
# What walks up the hierarchy do not miss

A walk that ends before it knows too many types has looked above everything that it has found, level
by level. So it finds every type at the end of a path within the limit, at no greater distance than
the length of the path. The same is true if nothing was missing any more when too many were known.

- `Store.FindsMore`: types found later, all of them at one distance.
- `Store.walk_induction`: what is true of the types found as long as unknown ones are added.
- `Store.NeverCut`: the limit of the number of types does no harm.
- `Store.LookedAbove`: everything found up to a distance has been looked above.
- `Store.walk_complete`: a walk looks above everything that it finds on the way.
- `Store.exists_member_of_neverCut`: an ancestry that was not cut short is complete.
- `Store.exists_baseAbove_of_mem`: the base chain is made of base types.
-/

namespace NominalTypes.Store

variable {s : Store} {type other : TypeId} {distance : Nat} {found found' : List (TypeId × Nat)}

/-! ## Types found -/

/-- The type is among those found, at the distance or nearer. -/
def FoundWithin (found : List (TypeId × Nat)) (type : TypeId) (distance : Nat) : Prop :=
  ∃ entry ∈ found, entry.1 = type ∧ entry.2 ≤ distance

/-- More types have been found, all of them at the same distance. -/
def FindsMore (distance : Nat) (found found' : List (TypeId × Nat)) : Prop :=
  ∃ new, found' = new ++ found ∧ ∀ entry ∈ new, entry.2 = distance

namespace FindsMore

theorem refl (distance : Nat) (found : List (TypeId × Nat)) : FindsMore distance found found :=
  ⟨[], rfl, by simp⟩

theorem trans (h : FindsMore distance found found') {found'' : List (TypeId × Nat)}
    (h' : FindsMore distance found' found'') : FindsMore distance found found'' := by
  obtain ⟨new, rfl, hnew⟩ := h
  obtain ⟨new', rfl, hnew'⟩ := h'
  refine ⟨new' ++ new, by simp, fun entry hentry => ?_⟩
  rcases List.mem_append.mp hentry with hmem | hmem
  · exact hnew' entry hmem
  · exact hnew entry hmem

theorem isSuffix (h : FindsMore distance found found') : found <:+ found' := by
  obtain ⟨new, rfl, -⟩ := h
  exact List.suffix_append new found

theorem foundWithin (h : FindsMore distance found found') {within : Nat}
    (htype : FoundWithin found type within) : FoundWithin found' type within := by
  obtain ⟨entry, hentry, heq⟩ := htype
  exact ⟨entry, h.isSuffix.subset hentry, heq⟩

theorem le (h : FindsMore distance found found') (hfound : ∀ entry ∈ found, entry.2 ≤ distance) :
    ∀ entry ∈ found', entry.2 ≤ distance := by
  obtain ⟨new, rfl, hnew⟩ := h
  intro entry hentry
  rcases List.mem_append.mp hentry with hmem | hmem
  · exact (hnew entry hmem).le
  · exact hfound entry hmem

/-- Farther types are in front of nearer ones. -/
theorem sorted (h : FindsMore distance found found')
    (hsorted : found.Pairwise fun later earlier => earlier.2 ≤ later.2)
    (hfound : ∀ entry ∈ found, entry.2 ≤ distance) :
    found'.Pairwise fun later earlier => earlier.2 ≤ later.2 := by
  obtain ⟨new, rfl, hnew⟩ := h
  refine List.pairwise_append.mpr ⟨?_, hsorted, ?_⟩
  · refine List.pairwise_of_forall_mem_list fun later hlater earlier hearlier => ?_
    rw [hnew later hlater, hnew earlier hearlier]
  · intro later hlater earlier hearlier
    rw [hnew later hlater]
    exact hfound earlier hearlier

end FindsMore

/-! ## Each type once -/

section Invariants

variable {p : List (TypeId × Nat) → Prop}
  (hadd : ∀ found type distance, p found → found.lookup type = none →
    p ((type, distance) :: found))

include hadd

/-- What stays true when an unknown type is added stays true when a type is looked above. -/
theorem lookAbove_induction {lower : TypeId} (hfound : p found)
    (h : s.lookAbove distance found lower = .ok found') : p found' := by
  unfold lookAbove at h
  split at h
  · cases h
    exact hfound
  obtain ⟨d, -, hall⟩ := bind_eq_ok.mp h
  cases hall
  refine List.foldlRecOn (motive := p) d.supertypes _ hfound fun found hfound upper _ => ?_
  split
  · exact hfound
  · next hnew => exact hadd found upper _ hfound (Option.not_isSome_iff_eq_none.mp hnew)

theorem foldlM_lookAbove_induction {level : List TypeId} :
    ∀ {found : List (TypeId × Nat)}, p found →
      level.foldlM (s.lookAbove distance) found = .ok found' → p found' := by
  induction level with
  | nil =>
    intro found hfound h
    cases h
    exact hfound
  | cons lower level ih =>
    intro found hfound h
    rw [List.foldlM_cons] at h
    obtain ⟨next, hlower, hrest⟩ := bind_eq_ok.mp h
    exact ih (lookAbove_induction hadd hfound hlower) hrest

/-- So it is true of the types known at the end of a walk if it was true at the beginning. -/
theorem walk_induction (levels : Nat) :
    ∀ {distance : Nat} {found : List (TypeId × Nat)}, p found →
      s.walk levels distance found = .ok found' → p found' := by
  induction levels with
  | zero =>
    intro distance found hfound h
    cases h
    exact hfound
  | succ levels ih =>
    intro distance found hfound h
    rw [walk_succ] at h
    split at h
    · cases h
      exact hfound
    obtain ⟨next, hlevel, hrest⟩ := bind_eq_ok.mp h
    exact ih (foldlM_lookAbove_induction hadd hfound hlevel) hrest

end Invariants

/-- An ancestry has every type once. -/
theorem ancestry_nodup {a : Ancestry} (ha : s.ancestry type = .ok a) : a.types.Nodup := by
  obtain ⟨chain, -, ha⟩ := bind_eq_ok.mp ha
  obtain ⟨found, hwalk, ha⟩ := bind_eq_ok.mp ha
  cases ha
  suffices hnodup : (found.map Prod.fst).Nodup by
    rw [Ancestry.types, List.map_reverse]
    exact List.pairwise_reverse.mpr (hnodup.imp Ne.symm)
  refine walk_induction (p := fun found => (found.map Prod.fst).Nodup) ?_ maxDistance (by simp)
    hwalk
  intro found upper distance hfound hnew
  rw [List.map_cons, List.nodup_cons]
  refine ⟨fun hmem => ?_, hfound⟩
  obtain ⟨entry, hentry, rfl⟩ := List.mem_map.mp hmem
  have hknown := List.lookup_isSome_iff.mpr ⟨entry, hentry, beq_self_eq_true entry.1⟩
  rw [hnew] at hknown
  cases hknown

/-! ## The limit of the number of types -/

/-- Whatever is directly above a type found has been found as well. -/
def ClosedAbove (s : Store) (found : List (TypeId × Nat)) : Prop :=
  ∀ entry ∈ found, ∀ upper, s.DirectSupertype entry.1 upper → upper ∈ found.map Prod.fst

/-- At no time did the limit of the number of types make a walk miss one: once so many were known,
nothing was above them that was not known too. -/
def NeverCut (s : Store) (found : List (TypeId × Nat)) : Prop :=
  ∀ part, part <:+ found → maxAncestrySize ≤ part.length → s.ClosedAbove part

theorem NeverCut.of_isSuffix (h : s.NeverCut found') (hsuffix : found <:+ found') :
    s.NeverCut found := fun part hpart => h part (hpart.trans hsuffix)

theorem neverCut_of_length_lt (hfew : found.length < maxAncestrySize) : s.NeverCut found :=
  fun _ hpart hmany => absurd (Nat.lt_of_le_of_lt hpart.length_le hfew) (Nat.not_lt.mpr hmany)

/-! ## One level -/

/-- Types that are entered unless they are known already are known afterwards. -/
theorem foldl_complete (uppers : List TypeId) (hfound : ∀ entry ∈ found, entry.2 ≤ distance) :
    FindsMore distance found (uppers.foldl
      (fun found t => if (found.lookup t).isSome then found else (t, distance) :: found) found) ∧
    ∀ upper ∈ uppers, FoundWithin (uppers.foldl
      (fun found t => if (found.lookup t).isSome then found else (t, distance) :: found) found)
      upper distance := by
  induction uppers generalizing found with
  | nil => exact ⟨.refl distance found, by simp⟩
  | cons upper uppers ih =>
    rw [List.foldl_cons]
    have hnext : FindsMore distance found
          (if (found.lookup upper).isSome then found else (upper, distance) :: found) ∧
        FoundWithin (if (found.lookup upper).isSome then found else (upper, distance) :: found)
          upper distance := by
      split
      · next hknown =>
        obtain ⟨entry, hentry, heq⟩ := List.lookup_isSome_iff.mp hknown
        exact ⟨.refl distance found, entry, hentry, (eq_of_beq heq).symm, hfound entry hentry⟩
      · exact ⟨⟨[(upper, distance)], rfl, by simp⟩, (upper, distance), List.mem_cons_self, rfl,
          Nat.le_refl distance⟩
    obtain ⟨hmore, huppers⟩ := ih (hnext.1.le hfound)
    exact ⟨hnext.1.trans hmore, List.forall_mem_cons.mpr ⟨hmore.foundWithin hnext.2, huppers⟩⟩

/-- Looking above a type adds types at the next distance. Unless the walk was cut short before, the
supertypes of the type are known afterwards. -/
theorem lookAbove_complete {lower : TypeId} (hfound : ∀ entry ∈ found, entry.2 ≤ distance + 1)
    (h : s.lookAbove distance found lower = .ok found') :
    FindsMore (distance + 1) found found' ∧
      (s.NeverCut found → lower ∈ found.map Prod.fst → ∀ upper, s.DirectSupertype lower upper →
        FoundWithin found' upper (distance + 1)) := by
  unfold lookAbove at h
  split at h
  · next hmany =>
    cases h
    refine ⟨.refl _ _, fun hcut hlower upper hupper => ?_⟩
    -- the type is not looked above, but what is above it is known already
    obtain ⟨entry, hentry, rfl⟩ := List.mem_map.mp hlower
    obtain ⟨above, habove, heq⟩ := List.mem_map.mp
      (hcut found List.suffix_rfl hmany entry hentry upper hupper)
    exact ⟨above, habove, heq, hfound above habove⟩
  obtain ⟨d, hd, hall⟩ := bind_eq_ok.mp h
  cases hall
  obtain ⟨hmore, huppers⟩ := foldl_complete d.supertypes hfound
  refine ⟨hmore, ?_⟩
  rintro - - upper ⟨e, he, hupper⟩
  rw [descriptor_eq_ok.mp hd] at he
  cases he
  exact huppers upper hupper

/-- So does looking above all types of a level. -/
theorem foldlM_lookAbove_complete {level : List TypeId} :
    ∀ {found found' : List (TypeId × Nat)}, (∀ entry ∈ found, entry.2 ≤ distance + 1) →
      level.foldlM (s.lookAbove distance) found = .ok found' →
      FindsMore (distance + 1) found found' ∧
        (s.NeverCut found' → (∀ lower ∈ level, lower ∈ found.map Prod.fst) →
          ∀ lower ∈ level, ∀ upper, s.DirectSupertype lower upper →
            FoundWithin found' upper (distance + 1)) := by
  induction level with
  | nil =>
    intro found found' _ h
    cases h
    exact ⟨.refl _ _, by simp⟩
  | cons lower level ih =>
    intro found found' hfound h
    rw [List.foldlM_cons] at h
    obtain ⟨next, hstep, hrest⟩ := bind_eq_ok.mp h
    obtain ⟨hmore, hlower⟩ := lookAbove_complete hfound hstep
    obtain ⟨hmore', hlevel⟩ := ih (hmore.le hfound) hrest
    refine ⟨hmore.trans hmore', fun hcut hknown => ?_⟩
    obtain ⟨hfirst, hothers⟩ := List.forall_mem_cons.mp hknown
    have hbefore := hcut.of_isSuffix (hmore.trans hmore').isSuffix
    refine List.forall_mem_cons.mpr ⟨fun upper hupper => ?_, hlevel hcut fun lower' hmem => ?_⟩
    · exact hmore'.foundWithin (hlower hbefore hfirst upper hupper)
    · exact (hmore.isSuffix.map Prod.fst).subset (hothers lower' hmem)

/-! ## The whole walk -/

/-- The types found are in order, the farthest first, and everything nearer than the distance has
been looked above. -/
structure LookedAbove (s : Store) (distance : Nat) (found : List (TypeId × Nat)) : Prop where
  sorted : found.Pairwise fun later earlier => earlier.2 ≤ later.2
  above : ∀ entry ∈ found, entry.2 < distance → ∀ upper, s.DirectSupertype entry.1 upper →
    FoundWithin found upper (entry.2 + 1)

/-- The types at the greatest distance are the last ones found. -/
theorem LookedAbove.mem_lastLevel (h : s.LookedAbove distance found)
    (hfound : ∀ entry ∈ found, entry.2 ≤ distance) {entry : TypeId × Nat} (hentry : entry ∈ found)
    (hdistance : entry.2 = distance) : entry.1 ∈ lastLevel distance found := by
  refine List.mem_reverse.mpr (List.mem_map_of_mem ?_)
  have hsorted := h.sorted
  clear h
  induction found with
  | nil => cases hentry
  | cons first rest ih =>
    obtain ⟨hfirst, hrest⟩ := List.pairwise_cons.mp hsorted
    have heq : first.2 = distance := by
      rcases List.mem_cons.mp hentry with rfl | hmem
      · exact hdistance
      · exact Nat.le_antisymm (hfound first List.mem_cons_self)
          (hdistance ▸ hfirst entry hmem)
    rw [List.takeWhile_cons_of_pos (by simp [heq])]
    rcases List.mem_cons.mp hentry with rfl | hmem
    · exact List.mem_cons_self
    · exact List.mem_cons_of_mem _
        (ih (fun e he => hfound e (List.mem_cons_of_mem _ he)) hmem hrest)

/-- One more level is looked above. -/
theorem LookedAbove.next (h : s.LookedAbove distance found)
    (hfound : ∀ entry ∈ found, entry.2 ≤ distance) (hmore : FindsMore (distance + 1) found found')
    (hlevel : ∀ lower ∈ lastLevel distance found, ∀ upper, s.DirectSupertype lower upper →
      FoundWithin found' upper (distance + 1)) : s.LookedAbove (distance + 1) found' := by
  constructor
  · exact hmore.sorted h.sorted fun entry hentry => Nat.le_succ_of_le (hfound entry hentry)
  · intro entry hentry hlt upper hupper
    obtain ⟨new, rfl, hnew⟩ := hmore
    have hmem : entry ∈ found := by
      rcases List.mem_append.mp hentry with hmem | hmem
      · rw [hnew entry hmem] at hlt
        exact absurd hlt (Nat.lt_irrefl _)
      · exact hmem
    by_cases hlast : entry.2 = distance
    · rw [hlast]
      exact hlevel entry.1 (h.mem_lastLevel hfound hmem hlast) upper hupper
    · have hnear : entry.2 < distance := Nat.lt_of_le_of_ne (hfound entry hmem) hlast
      exact FindsMore.foundWithin ⟨new, rfl, hnew⟩ (h.above entry hmem hnear upper hupper)

/-- The types of the last level are among those found. -/
theorem mem_of_mem_lastLevel {lower : TypeId} (h : lower ∈ lastLevel distance found) :
    lower ∈ found.map Prod.fst :=
  ((List.takeWhile_sublist _).map Prod.fst).subset (List.mem_reverse.mp h)

/-- A walk adds to what has been found, and it looks above everything that it finds within its
levels unless it is cut short. -/
theorem walk_complete (levels : Nat) :
    ∀ {distance : Nat} {found found' : List (TypeId × Nat)},
      (∀ entry ∈ found, entry.2 ≤ distance) → s.walk levels distance found = .ok found' →
      found <:+ found' ∧ (s.LookedAbove distance found → s.NeverCut found' →
        s.LookedAbove (distance + levels) found') := by
  induction levels with
  | zero =>
    intro distance found found' _ hwalk
    cases hwalk
    exact ⟨List.suffix_rfl, fun h _ => h⟩
  | succ levels ih =>
    intro distance found found' hfound hwalk
    rw [walk_succ] at hwalk
    split at hwalk
    · next hempty =>
      cases hwalk
      refine ⟨List.suffix_rfl, fun h _ => ⟨h.sorted, fun entry hentry _ => ?_⟩⟩
      -- nothing is found at the distance, so everything is nearer
      have hne : entry.2 ≠ distance := fun heq => by
        have hmem := h.mem_lastLevel hfound hentry heq
        rw [hempty] at hmem
        cases hmem
      exact h.above entry hentry (Nat.lt_of_le_of_ne (hfound entry hentry) hne)
    obtain ⟨next, hstep, hrest⟩ := bind_eq_ok.mp hwalk
    obtain ⟨hmore, hlevel⟩ := foldlM_lookAbove_complete
      (fun entry hentry => Nat.le_succ_of_le (hfound entry hentry)) hstep
    have hnext : ∀ entry ∈ next, entry.2 ≤ distance + 1 :=
      hmore.le fun entry hentry => Nat.le_succ_of_le (hfound entry hentry)
    obtain ⟨hsuffix, hwalked⟩ := ih hnext hrest
    refine ⟨hmore.isSuffix.trans hsuffix, fun h hcut => ?_⟩
    rw [Nat.add_comm levels 1, ← Nat.add_assoc]
    have hbefore := hcut.of_isSuffix hsuffix
    exact hwalked (h.next hfound hmore (hlevel hbefore fun _ => mem_of_mem_lastLevel)) hcut

/-- An ancestry that was not cut short has every type at the end of a path within the limit, at no
greater distance than the length of the path. -/
theorem exists_member_of_neverCut {a : Ancestry} (ha : s.ancestry type = .ok a)
    (hcut : s.NeverCut a.members.reverse) (hpath : s.Above type distance other)
    (hdistance : distance ≤ maxDistance) :
    ∃ entry ∈ a.members, entry.1 = other ∧ entry.2 ≤ distance := by
  obtain ⟨chain, -, ha⟩ := bind_eq_ok.mp ha
  obtain ⟨found, hwalk, ha⟩ := bind_eq_ok.mp ha
  cases ha
  have hstart : s.LookedAbove 0 [(type, 0)] :=
    ⟨List.pairwise_singleton _ _, fun entry _ hlt => absurd hlt (Nat.not_lt_zero _)⟩
  obtain ⟨hsuffix, hcomplete⟩ := walk_complete maxDistance (by simp) hwalk
  rw [List.reverse_reverse] at hcut
  have hlooked := hcomplete hstart hcut
  rw [Nat.zero_add] at hlooked
  suffices hfound : FoundWithin found other distance by
    obtain ⟨entry, hentry, heq⟩ := hfound
    exact ⟨entry, List.mem_reverse.mpr hentry, heq⟩
  -- one type of the path after the other has been found and looked above
  clear hcut hcomplete hstart
  induction hpath with
  | self => exact ⟨(type, 0), hsuffix.subset (by simp), rfl, Nat.le_refl 0⟩
  | @step length lower upper path edge ih =>
    obtain ⟨entry, hentry, rfl, hle⟩ := ih (Nat.le_of_succ_le hdistance)
    obtain ⟨entry', hentry', heq, hle'⟩ := hlooked.above entry hentry (by omega) upper edge
    exact ⟨entry', hentry', heq, by omega⟩

/-- So it is with an ancestry of fewer types than the limit. -/
theorem exists_member_of_above {a : Ancestry} (ha : s.ancestry type = .ok a)
    (hfew : a.size < maxAncestrySize) (hpath : s.Above type distance other)
    (hdistance : distance ≤ maxDistance) :
    ∃ entry ∈ a.members, entry.1 = other ∧ entry.2 ≤ distance :=
  exists_member_of_neverCut ha (neverCut_of_length_lt (by simpa [Ancestry.size] using hfew)) hpath
    hdistance

/-- A type is a member of its own ancestry. -/
theorem mem_types_self {a : Ancestry} (ha : s.ancestry type = .ok a) : type ∈ a.types := by
  obtain ⟨chain, -, ha⟩ := bind_eq_ok.mp ha
  obtain ⟨found, hwalk, ha⟩ := bind_eq_ok.mp ha
  cases ha
  have hstart : (type, 0) ∈ found := (walk_complete maxDistance (by simp) hwalk).1.subset (by simp)
  exact List.mem_map_of_mem (List.mem_reverse.mpr hstart)

/-! ## Base chains -/

theorem BaseAbove.above (h : s.BaseAbove type distance other) : s.Above type distance other := by
  induction h with
  | self => exact .self
  | step _ hd hbase ih => exact .step ih (.of_base hd hbase)

/-- Of two types on a path of base types, the farther one is on the path from the nearer one. -/
theorem BaseAbove.between {lower : TypeId} (h : s.BaseAbove type distance lower) :
    ∀ {rest : Nat}, s.BaseAbove type (distance + rest) other → s.BaseAbove lower rest other := by
  induction h with
  | self =>
    intro rest h'
    rwa [Nat.zero_add] at h'
  | step _ hd hbase ih =>
    intro rest h'
    rw [Nat.add_assoc, Nat.add_comm 1] at h'
    obtain ⟨base, hbase', hrest⟩ := (ih h').head hd
    rw [hbase] at hbase'
    cases hbase'
    exact hrest

/-- A path of base types may begin one type earlier. -/
theorem BaseAbove.cons {d : Descriptor} (hd : s.get? type = some d) {base : TypeId}
    (hbase : d.base = some base) (h : s.BaseAbove base distance other) :
    s.BaseAbove type (distance + 1) other := by
  induction h with
  | self => exact .step .self hd hbase
  | step _ he hnext ih => exact .step ih he hnext

/-- Every type of a base chain is at the end of a path of base types within the limit. -/
theorem exists_baseAbove_of_mem_from (length : Nat) :
    ∀ {seen : List TypeId} {type : TypeId} {chain : List TypeId},
      s.baseChainFrom length seen type = .ok chain → other ∈ chain →
      ∃ distance, distance < length ∧ s.BaseAbove type distance other := by
  induction length with
  | zero =>
    intro seen type chain hchain hother
    cases hchain
    cases hother
  | succ length ih =>
    intro seen type chain hchain hother
    by_cases hseen : type ∈ seen
    · rw [baseChainFrom, if_pos hseen] at hchain
      cases hchain
      cases hother
    obtain ⟨d, hd, ⟨-, rfl⟩ | ⟨base, rest, hbase, hrest, rfl⟩⟩ := baseChainFrom_cases hseen hchain
    · rw [List.mem_singleton.mp hother]
      exact ⟨0, Nat.succ_pos length, .self⟩
    · rcases List.mem_cons.mp hother with rfl | hother
      · exact ⟨0, Nat.succ_pos length, .self⟩
      · obtain ⟨distance, hlt, hpath⟩ := ih hrest hother
        exact ⟨distance + 1, Nat.succ_lt_succ hlt, hpath.cons hd hbase⟩

theorem exists_baseAbove_of_mem {chain : List TypeId} (hchain : s.baseChain type = .ok chain)
    (hother : other ∈ chain) :
    ∃ distance, distance ≤ maxDistance ∧ s.BaseAbove type distance other := by
  obtain ⟨distance, hlt, hpath⟩ := exists_baseAbove_of_mem_from _ hchain hother
  exact ⟨distance, Nat.le_of_lt_succ hlt, hpath⟩

end NominalTypes.Store
