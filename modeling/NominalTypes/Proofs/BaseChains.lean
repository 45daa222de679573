import NominalTypes.Proofs.Ancestries

/-!
# Base chains and ancestries agree

A base chain follows base types and stops where it would repeat itself, an ancestry is walked level
by level, and each has a limit of its own. Still the base chain is the part of the ancestry that is
not made of interfaces: nothing but base types leads to a class, so at every distance there is at
most one member of this part, and the chain has it at the position of this number.

- `Store.BaseAbove.unique`: there is one base path of a length.
- `Store.baseAbove_of_getElem?`, `Store.nodup_baseChain`: the entries of a base chain.
- `Store.length_baseChainFrom`: a chain that goes on to a new type beyond the limit is cut there.
- `Store.WellFormed.zipIdx_baseChain`: positions in the chain are distances in the ancestry.
- `Store.Reachable.baseChain_eq_filter`: the main result.
-/

namespace NominalTypes.Store

variable {s : Store} {type other : TypeId} {distance position : Nat}

/-! ## Entries of base chains -/

/-- A path of base types of a given length ends at one type only. -/
theorem BaseAbove.unique {other' : TypeId} (h : s.BaseAbove type distance other)
    (h' : s.BaseAbove type distance other') : other = other' := by
  have hrest : s.BaseAbove other 0 other' := h.between (by rwa [Nat.add_zero])
  cases hrest
  rfl

/-- A base path that takes at least one step does not end at an interface. -/
theorem BaseAbove.isInterface_eq_false (hs : s.WellFormed)
    (h : s.BaseAbove type (distance + 1) other) : s.isInterface other = false := by
  cases h with
  | step path hd hbase =>
    rw [Bool.eq_false_iff, ne_eq, isInterface_iff, (hs.sound _ _ hd).base other hbase]
    simp

/-- The entry at a position of a base chain is as many base types up. -/
theorem baseAbove_of_getElem?_from (length : Nat) :
    ∀ {seen : List TypeId} {type : TypeId} {chain : List TypeId} {position : Nat},
      s.baseChainFrom length seen type = .ok chain → chain[position]? = some other →
      position < length ∧ s.BaseAbove type position other := by
  induction length with
  | zero =>
    intro seen type chain position hchain hother
    cases hchain
    cases hother
  | succ length ih =>
    intro seen type chain position hchain hother
    by_cases hseen : type ∈ seen
    · rw [baseChainFrom, if_pos hseen] at hchain
      cases hchain
      cases hother
    obtain ⟨d, hd, hnext⟩ := baseChainFrom_cases hseen hchain
    cases position with
    | zero =>
      have hfirst : other = type := by
        rcases hnext with ⟨-, rfl⟩ | ⟨base, rest, -, -, rfl⟩ <;> exact (Option.some.inj hother).symm
      rw [hfirst]
      exact ⟨Nat.succ_pos length, .self⟩
    | succ position =>
      rcases hnext with ⟨-, rfl⟩ | ⟨base, rest, hbase, hrest, rfl⟩
      · cases hother
      · obtain ⟨hlt, hpath⟩ := ih hrest hother
        exact ⟨Nat.succ_lt_succ hlt, hpath.cons hd hbase⟩

theorem baseAbove_of_getElem? {chain : List TypeId} (hchain : s.baseChain type = .ok chain)
    (hother : chain[position]? = some other) :
    position ≤ maxDistance ∧ s.BaseAbove type position other := by
  obtain ⟨hlt, hpath⟩ := baseAbove_of_getElem?_from _ hchain hother
  exact ⟨Nat.le_of_lt_succ hlt, hpath⟩

/-- The chain has no type twice, and none that has been seen before. -/
theorem nodup_baseChainFrom (length : Nat) :
    ∀ {seen : List TypeId} {type : TypeId} {chain : List TypeId},
      s.baseChainFrom length seen type = .ok chain →
      chain.Nodup ∧ ∀ x ∈ chain, x ∉ seen := by
  induction length with
  | zero =>
    intro seen type chain hchain
    cases hchain
    exact ⟨.nil, by simp⟩
  | succ length ih =>
    intro seen type chain hchain
    by_cases hseen : type ∈ seen
    · rw [baseChainFrom, if_pos hseen] at hchain
      cases hchain
      exact ⟨.nil, by simp⟩
    obtain ⟨d, -, ⟨-, rfl⟩ | ⟨base, rest, -, hrest, rfl⟩⟩ := baseChainFrom_cases hseen hchain
    · exact ⟨List.nodup_singleton _, by simpa using hseen⟩
    · obtain ⟨hnodup, hnew⟩ := ih hrest
      refine ⟨List.nodup_cons.mpr ⟨fun hmem => hnew type hmem List.mem_cons_self, hnodup⟩, ?_⟩
      exact List.forall_mem_cons.mpr
        ⟨hseen, fun x hx hmem => hnew x hx (List.mem_cons_of_mem _ hmem)⟩

theorem nodup_baseChain {chain : List TypeId} (hchain : s.baseChain type = .ok chain) :
    chain.Nodup := (nodup_baseChainFrom _ hchain).1

/-- Where the base path goes on to a type that is not on the chain, the limit has cut the chain, and
not a repetition. -/
theorem length_baseChainFrom (length : Nat) :
    ∀ {seen : List TypeId} {type : TypeId} {chain : List TypeId},
      s.baseChainFrom length seen type = .ok chain → s.LeadsTo seen type →
      s.BaseAbove type length other → other ∉ seen → other ∉ chain → chain.length = length := by
  induction length with
  | zero =>
    intro seen type chain hchain _ _ _ _
    cases hchain
    rfl
  | succ length ih =>
    intro seen type chain hchain hleads hpath hseen hnew
    have htype : type ∉ seen := fun htype => hseen (hleads.mem_of_baseAbove htype hpath)
    obtain ⟨d, hd, hnext⟩ := baseChainFrom_cases htype hchain
    obtain ⟨base, hbase, htail⟩ := hpath.head hd
    rcases hnext with ⟨hnone, -⟩ | ⟨base', rest, hbase', hrest, rfl⟩
    · rw [hbase] at hnone
      cases hnone
    rw [hbase] at hbase'
    cases hbase'
    have hne : other ≠ type := List.ne_of_not_mem_cons hnew
    rw [List.length_cons, ih hrest (hleads.cons hd hbase) htail
      (List.not_mem_cons_of_ne_of_not_mem hne hseen) (List.not_mem_of_not_mem_cons hnew)]

/-! ## Base chains in ancestries -/

/-- The members of an ancestry that a base chain may have: the type itself, and what is not an
interface. -/
def isBaseMember (s : Store) (type other : TypeId) : Bool := other == type || !s.isInterface other

theorem isBaseMember_iff :
    s.isBaseMember type other = true ↔ other = type ∨ s.isInterface other = false := by
  simp [isBaseMember]

/-- The entries of a base chain are such members. -/
theorem WellFormed.isBaseMember_of_baseAbove (hs : s.WellFormed)
    (h : s.BaseAbove type distance other) : s.isBaseMember type other = true := by
  cases distance with
  | zero =>
    cases h
    exact isBaseMember_iff.mpr (.inl rfl)
  | succ distance => exact isBaseMember_iff.mpr (.inr (h.isInterface_eq_false hs))

/-- An entry of a base chain is not nearer by base types than at its position. -/
theorem position_le_of_baseAbove {chain : List TypeId} (hchain : s.baseChain type = .ok chain)
    (hother : chain[position]? = some other) (hpath : s.BaseAbove type distance other) :
    position ≤ distance := by
  by_contra hlt
  have hlt := Nat.lt_of_not_le hlt
  -- the chain would have the same type at two positions
  obtain ⟨hposition, -⟩ := List.getElem?_eq_some_iff.mp hother
  have hshort := Nat.lt_trans hlt hposition
  have hearlier : chain[distance]? = some other := by
    have hentry := List.getElem?_eq_getElem hshort
    rw [hentry, (baseAbove_of_getElem? hchain hentry).2.unique hpath]
  have hsame := (List.getElem?_inj hshort (nodup_baseChain hchain)).mp (hearlier.trans hother.symm)
  exact Nat.ne_of_lt hlt hsame

/-- A member that a base chain may have is as many base types up as its distance. -/
theorem WellFormed.baseAbove_of_isBaseMember (hs : s.WellFormed) {a : Ancestry}
    (ha : s.ancestry type = .ok a) (hmember : (other, distance) ∈ a.members)
    (hbase : s.isBaseMember type other = true) :
    distance ≤ maxDistance ∧ s.BaseAbove type distance other := by
  obtain ⟨hpath, hdistance⟩ := (ancestry_sound ha).2 _ hmember
  refine ⟨hdistance, ?_⟩
  rcases isBaseMember_iff.mp hbase with rfl | hclass
  · -- the type is listed once, at the distance zero
    have hself : (other, 0) ∈ a.members := List.mem_of_head? (head?_members ha)
    cases List.inj_on_of_nodup_map (ancestry_nodup ha) hmember hself rfl
    exact .self
  · exact hpath.baseAbove hs hclass

/-- The position of an entry of the chain is its distance in the ancestry. -/
theorem WellFormed.mem_zipIdx_baseChain_iff (hs : s.WellFormed) {chain : List TypeId} {a : Ancestry}
    (hchain : s.baseChain type = .ok chain) (ha : s.ancestry type = .ok a)
    (hfew : {other | s.WidensTo type other}.encard ≤ maxAncestrySize) :
    (other, distance) ∈ chain.zipIdx ↔
      (other, distance) ∈ a.members ∧ s.isBaseMember type other = true := by
  rw [List.mk_mem_zipIdx_iff_getElem?]
  constructor
  · intro hother
    obtain ⟨hdistance, hpath⟩ := baseAbove_of_getElem? hchain hother
    have hbase := hs.isBaseMember_of_baseAbove hpath
    refine ⟨?_, hbase⟩
    obtain ⟨⟨_, nearer⟩, hmember, rfl, hle⟩ :=
      exists_member_of_neverCut ha (neverCut_ancestry ha hfew) hpath.above hdistance
    have hnearer := (hs.baseAbove_of_isBaseMember ha hmember hbase).2
    rwa [Nat.le_antisymm (position_le_of_baseAbove hchain hother hnearer) hle]
  · rintro ⟨hmember, hbase⟩
    obtain ⟨hdistance, hpath⟩ := hs.baseAbove_of_isBaseMember ha hmember hbase
    obtain ⟨position, hother⟩ := List.mem_iff_getElem?.mp (mem_baseChain hchain hpath hdistance)
    have hle : distance ≤ position :=
      (mem_members_iff ha hfew).mp hmember |>.2.2 (baseAbove_of_getElem? hchain hother).2.above
    rwa [Nat.le_antisymm hle (position_le_of_baseAbove hchain hother hpath)]

/-- The base chain with its positions is the ancestry with its distances, without the interfaces. -/
theorem WellFormed.zipIdx_baseChain (hs : s.WellFormed) {chain : List TypeId} {a : Ancestry}
    (hchain : s.baseChain type = .ok chain) (ha : s.ancestry type = .ok a)
    (hfew : {other | s.WidensTo type other}.encard ≤ maxAncestrySize) :
    chain.zipIdx = a.members.filter fun member => s.isBaseMember type member.1 := by
  have hiff : ∀ other distance, (other, distance) ∈ chain.zipIdx ↔
      (other, distance) ∈ a.members ∧ s.isBaseMember type other = true :=
    fun _ _ => hs.mem_zipIdx_baseChain_iff hchain ha hfew
  -- both lists are in the order of the numbers, and no number occurs twice
  have hpositions : chain.zipIdx.Pairwise fun earlier later => earlier.2 < later.2 := by
    refine List.pairwise_map.mp ?_
    rw [List.zipIdx_map_snd]
    exact List.pairwise_lt_range'
  have hdistances : (a.members.filter fun member => s.isBaseMember type member.1).Pairwise
      fun earlier later => earlier.2 < later.2 := by
    have hmembers := breadthFirst_ancestry ha hfew
    have hnodup := (List.pairwise_map.mp hmembers.nodup).filter
      fun member => s.isBaseMember type member.1
    refine ((hmembers.sorted.filter _).and hnodup).imp_of_mem ?_
    rintro ⟨x, n⟩ ⟨y, m⟩ hx hy ⟨hle, hne⟩
    obtain ⟨hx, hxbase⟩ := List.mem_filter.mp hx
    obtain ⟨hy, hybase⟩ := List.mem_filter.mp hy
    refine Nat.lt_of_le_of_ne hle fun heq => hne ?_
    obtain rfl : n = m := heq
    exact (hs.baseAbove_of_isBaseMember ha hx hxbase).2.unique
      (hs.baseAbove_of_isBaseMember ha hy hybase).2
  have hirrefl : Std.Irrefl fun earlier later : TypeId × Nat => earlier.2 < later.2 :=
    ⟨fun entry => Nat.lt_irrefl entry.2⟩
  have hantisymm : Std.Antisymm fun earlier later : TypeId × Nat => earlier.2 < later.2 :=
    ⟨fun _ _ hlt hgt => absurd hlt (Nat.lt_asymm hgt)⟩
  refine hpositions.eq_of_mem_iff hdistances fun ⟨other, distance⟩ => ?_
  rw [List.mem_filter]
  exact hiff other distance

/-- From a type with no more types above it than an ancestry has room for, the base chain is what
the ancestry lists besides interfaces, the type itself kept, and in the same order; the position in
the chain is the distance in the ancestry. Where base types go on beyond the limit, both end at the
same type, as many base types up as the limit allows. -/
theorem Reachable.baseChain_eq_filter (hs : s.Reachable) (htype : type < s.size)
    (hfew : {other | s.WidensTo type other}.encard ≤ maxAncestrySize) :
    ∃ chain a, s.baseChain type = .ok chain ∧ s.ancestry type = .ok a ∧
      chain = a.types.filter (fun other => other == type || !s.isInterface other) ∧
      (∀ position other, chain[position]? = some other → (other, position) ∈ a.members) ∧
      ∀ beyond, s.BaseAbove type (maxDistance + 1) beyond → beyond ∉ chain →
        ∃ last, s.BaseAbove type maxDistance last ∧ chain.getLast? = some last ∧
          (last, maxDistance) ∈ a.members := by
  have hwf := hs.coherent.wellFormed
  obtain ⟨chain, hchain⟩ := hwf.answered_baseChain htype
  obtain ⟨a, ha⟩ := hwf.answered_ancestry htype
  have hzip := hwf.zipIdx_baseChain hchain ha hfew
  have hpositions : ∀ position other, chain[position]? = some other →
      (other, position) ∈ a.members := by
    intro position other hother
    have hmem := List.mk_mem_zipIdx_iff_getElem?.mpr hother
    rw [hzip] at hmem
    exact (List.mem_filter.mp hmem).1
  refine ⟨chain, a, hchain, ha, ?_, hpositions, ?_⟩
  · have hchain' := congrArg (List.map Prod.fst) hzip
    rw [List.zipIdx_map_fst] at hchain'
    rw [hchain', Ancestry.types, List.filter_map]
    rfl
  · intro beyond hpath hnew
    have hlength : chain.length = maxDistance + 1 :=
      length_baseChainFrom _ hchain (fun x hx => (List.not_mem_nil hx).elim) hpath
        List.not_mem_nil hnew
    obtain ⟨last, hlast⟩ : ∃ last, chain[maxDistance]? = some last :=
      ⟨_, List.getElem?_eq_getElem (by rw [hlength]; exact Nat.lt_succ_self _)⟩
    refine ⟨last, (baseAbove_of_getElem? hchain hlast).2, ?_, hpositions _ _ hlast⟩
    rw [List.getLast?_eq_getElem?, hlength]
    exact hlast

/-- An interface, a class that is its own base type, and a class below it. Both classes have the
interface. -/
def selfBased : Store :=
  Store.empty.afterAll
    [.declare (Declaration.plain .interface "Named"),
      .declare { Declaration.plain .classType "Own" with
        base := some "Own"
        interfaces := ["Named"] },
      .declare { Declaration.plain .classType "Derived" with
        base := some "Own"
        interfaces := ["Named"] }]

theorem reachable_selfBased : selfBased.Reachable := Reachable.empty.afterAll _

/-- The chain ends where it would repeat itself, and the ancestry has the interface besides. -/
theorem baseChain_selfBased : ∃ a, selfBased.baseChain 2 = .ok [2, 1] ∧
    selfBased.ancestry 2 = .ok a ∧ a.types = [2, 1, 0] ∧
    a.types.filter (fun other => other == 2 || !selfBased.isInterface other) = [2, 1] := by
  have hsize : selfBased.size = 3 := by decide +kernel
  have hknown : 2 < selfBased.size := by rw [hsize]; decide
  have hfew := reachable_selfBased.coherent.wellFormed.encard_widensTo_le hknown
  rw [hsize] at hfew
  obtain ⟨chain, a, hchain, ha, heq, -⟩ := reachable_selfBased.baseChain_eq_filter hknown
    (hfew.trans (by exact_mod_cast (by decide : 3 ≤ maxAncestrySize)))
  have hvalue : selfBased.baseChain 2 = .ok [2, 1] := by decide +kernel
  have htypes : (selfBased.ancestry 2).map Ancestry.types = .ok [2, 1, 0] := by decide +kernel
  rw [hchain, Except.ok.injEq] at hvalue
  rw [ha] at htypes
  exact ⟨a, hvalue ▸ hchain, ha, Except.ok.inj htypes, heq ▸ hvalue⟩

end NominalTypes.Store
