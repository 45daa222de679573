import Mathlib.Data.List.TakeWhile
import NominalTypes.Assignable
import NominalTypes.Proofs.Building.WellFormed

/-!
# Supertypes along paths

What the walks up the hierarchy find is reached by paths of supertypes. The base chain is the part
of it that is not made of interfaces, because interfaces have no base type.

- `Store.DirectSupertype`: the edges, for the base type and the interfaces alike.
- `Store.Above`, `Store.BaseAbove`: paths of a length, along all edges and along base types.
- `Store.ancestry_sound`: every member of an ancestry is at the end of a path of its distance.
- `Store.mem_baseChain`: the base chain has every type at the end of a short path of base types.
- `Store.accepts_of_nearestBuiltFrom`: a type may be stored where the nearest supertype with some
  definition is expected.
-/

namespace NominalTypes

/-- An answer to two questions in a row has an answer to the first one behind it. -/
theorem bind_eq_ok {ε α β : Type} {first : Except ε α} {next : α → Except ε β} {b : β} :
    (first >>= next) = .ok b ↔ ∃ a, first = .ok a ∧ next a = .ok b := by
  constructor
  · intro h
    cases first with
    | error e => cases h
    | ok a => exact ⟨a, rfl, h⟩
  · rintro ⟨a, rfl, h⟩
    exact h

/-- Two questions in a row have the same answer if the second one has, whatever the first one is
answered. -/
theorem bind_congr_of_ok {ε α β : Type} {first : Except ε α} {next next' : α → Except ε β}
    (h : ∀ a, first = .ok a → next a = next' a) : first >>= next = first >>= next' := by
  cases first with
  | error e => rfl
  | ok a => exact h a rfl

namespace Store

variable {s : Store} {type other : TypeId} {distance : Nat}

theorem descriptor_eq_ok {d : Descriptor} : s.descriptor type = .ok d ↔ s.get? type = some d := by
  unfold descriptor
  cases s.get? type <;> simp

/-! ## Paths -/

/-- The second type is the base type or an interface of the first one. -/
def DirectSupertype (s : Store) (type other : TypeId) : Prop :=
  ∃ d, s.get? type = some d ∧ other ∈ d.supertypes

theorem DirectSupertype.of_base {d : Descriptor} (hd : s.get? type = some d) {base : TypeId}
    (hbase : d.base = some base) : s.DirectSupertype type base :=
  ⟨d, hd, Descriptor.mem_supertypes_of_base hbase⟩

theorem DirectSupertype.lt_size (h : s.DirectSupertype type other) (hs : s.WellFormed) :
    other < s.size := by
  obtain ⟨d, hd, hother⟩ := h
  exact (hs.sound type d hd).supertypes_lt hother

/-- The last type is at the end of a path of supertypes. -/
inductive Above (s : Store) (type : TypeId) : Nat → TypeId → Prop
  | self : Above s type 0 type
  | step {distance : Nat} {lower upper : TypeId} (path : Above s type distance lower)
      (edge : s.DirectSupertype lower upper) : Above s type (distance + 1) upper

/-- The last type is at the end of a path of base types. -/
inductive BaseAbove (s : Store) (type : TypeId) : Nat → TypeId → Prop
  | self : BaseAbove s type 0 type
  | step {distance : Nat} {lower upper : TypeId} {d : Descriptor}
      (path : BaseAbove s type distance lower) (hd : s.get? lower = some d)
      (hbase : d.base = some upper) : BaseAbove s type (distance + 1) upper

theorem Above.lt_size (h : s.Above type distance other) (hs : s.WellFormed)
    (htype : type < s.size) : other < s.size := by
  cases h with
  | self => exact htype
  | step _ edge => exact edge.lt_size hs

/-- A path that does not end at an interface is made of base types. -/
theorem Above.baseAbove (h : s.Above type distance other) (hs : s.WellFormed)
    (hother : s.isInterface other = false) : s.BaseAbove type distance other := by
  -- an interface has no base type, so nothing but interfaces is above one
  induction h with
  | self => exact .self
  | @step distance lower upper path edge ih =>
    obtain ⟨d, hd, hupper⟩ := edge
    have hsound := hs.sound lower d hd
    rcases Descriptor.mem_supertypes.mp hupper with hbase | hinterface
    · refine .step (ih ?_) hd hbase
      rw [Bool.eq_false_iff, ne_eq, isInterface_iff, kind?_of_get? hd]
      intro hkind
      rw [hsound.base_interface (Option.some.inj hkind)] at hbase
      cases hbase
    · have hkind := hsound.interfaces upper hinterface
      rw [isInterface_iff.mpr hkind] at hother
      cases hother

/-! ## Base chains -/

/-- A base path begins with the base type. -/
theorem BaseAbove.head {d : Descriptor} (h : s.BaseAbove type (distance + 1) other)
    (hd : s.get? type = some d) : ∃ base, d.base = some base ∧ s.BaseAbove base distance other := by
  generalize hlength : distance + 1 = length at h
  induction h generalizing distance with
  | self => cases hlength
  | @step length lower upper e path he hbase ih =>
    cases hlength
    cases path with
    | self =>
      rw [hd] at he
      cases he
      exact ⟨upper, hbase, .self⟩
    | @step length lower' _ e' path' he' hbase' =>
      obtain ⟨base, hfirst, hrest⟩ := ih rfl
      exact ⟨base, hfirst, .step hrest he hbase⟩

/-- One step of the chain, in front of a known type that has not been seen. -/
theorem baseChainFrom_succ {d : Descriptor} (hd : s.get? type = some d) {seen : List TypeId}
    (hnew : type ∉ seen) (length : Nat) :
    s.baseChainFrom (length + 1) seen type =
      match d.base with
      | none => .ok [type]
      | some base => (s.baseChainFrom length (type :: seen) base).map (type :: ·) := by
  rw [baseChainFrom, if_neg hnew, descriptor, hd]
  show (match d.base with
    | none => return [type]
    | some base => return type :: (← s.baseChainFrom length (type :: seen) base)) = _
  cases d.base with
  | none => rfl
  | some base =>
    dsimp only
    cases s.baseChainFrom length (type :: seen) base <;> rfl

/-- A chain that goes on ends at a type without base, or continues with the base type. -/
theorem baseChainFrom_cases {seen chain : List TypeId} (hnew : type ∉ seen) {length : Nat}
    (h : s.baseChainFrom (length + 1) seen type = .ok chain) :
    ∃ d, s.get? type = some d ∧ ((d.base = none ∧ chain = [type]) ∨
      ∃ base rest, d.base = some base ∧ s.baseChainFrom length (type :: seen) base = .ok rest ∧
        chain = type :: rest) := by
  have hstep := h
  rw [baseChainFrom, if_neg hnew] at hstep
  obtain ⟨d, hd, -⟩ := bind_eq_ok.mp hstep
  have hget := descriptor_eq_ok.mp hd
  refine ⟨d, hget, ?_⟩
  rw [baseChainFrom_succ hget hnew] at h
  cases hbase : d.base with
  | none =>
    rw [hbase] at h
    cases h
    exact .inl ⟨rfl, rfl⟩
  | some base =>
    rw [hbase] at h
    dsimp only at h
    cases hrest : s.baseChainFrom length (type :: seen) base with
    | error e =>
      rw [hrest] at h
      cases h
    | ok rest =>
      rw [hrest] at h
      cases h
      exact .inr ⟨base, rest, rfl, hrest, rfl⟩

/-- The types seen on the chain lead nowhere but to one another and to the next type. -/
def LeadsTo (s : Store) (seen : List TypeId) (next : TypeId) : Prop :=
  ∀ x ∈ seen, ∀ d, s.get? x = some d → ∀ base, d.base = some base → base ∈ seen ∨ base = next

/-- Once a type is seen again, all of its base path has been seen. -/
theorem LeadsTo.mem_of_baseAbove {seen : List TypeId} (h : s.LeadsTo seen type)
    (htype : type ∈ seen) (hpath : s.BaseAbove type distance other) : other ∈ seen := by
  induction hpath with
  | self => exact htype
  | step _ hd hbase ih =>
    rcases h _ ih _ hd _ hbase with hmem | rfl
    · exact hmem
    · exact htype

/-- The next type has been seen too, and leads to its base type. -/
theorem LeadsTo.cons {seen : List TypeId} (h : s.LeadsTo seen type) {d : Descriptor}
    (hd : s.get? type = some d) {base : TypeId} (hbase : d.base = some base) :
    s.LeadsTo (type :: seen) base := by
  intro x hx e he b hb
  rcases List.mem_cons.mp hx with rfl | hx
  · rw [hd] at he
    cases he
    rw [hbase] at hb
    exact .inr (Option.some.inj hb).symm
  · rcases h x hx e he b hb with hmem | rfl
    · exact .inl (List.mem_cons_of_mem _ hmem)
    · exact .inl List.mem_cons_self

/-- The chain from a type on has every type at the end of a short base path, unless it has been seen
before. -/
theorem mem_baseChainFrom (length : Nat) :
    ∀ {seen : List TypeId} {type : TypeId} {distance : Nat} {chain : List TypeId},
      s.baseChainFrom length seen type = .ok chain → s.LeadsTo seen type →
      s.BaseAbove type distance other → distance < length → other ∈ seen ∨ other ∈ chain := by
  induction length with
  | zero => exact fun _ _ _ hlt => absurd hlt (Nat.not_lt_zero _)
  | succ length ih =>
    intro seen type distance chain hchain hleads hpath hlt
    by_cases hseen : type ∈ seen
    · -- the guard cuts the chain, but only where it would repeat itself
      exact .inl (hleads.mem_of_baseAbove hseen hpath)
    obtain ⟨d, hd, hnext⟩ := baseChainFrom_cases hseen hchain
    cases distance with
    | zero =>
      cases hpath
      rcases hnext with ⟨-, rfl⟩ | ⟨base, rest, -, -, rfl⟩ <;> exact .inr List.mem_cons_self
    | succ distance =>
      obtain ⟨base, hbase, htail⟩ := hpath.head hd
      rcases hnext with ⟨hnone, -⟩ | ⟨base', rest, hbase', hrest, rfl⟩
      · rw [hbase] at hnone
        cases hnone
      rw [hbase] at hbase'
      cases hbase'
      rcases ih hrest (hleads.cons hd hbase) htail (Nat.lt_of_succ_lt_succ hlt) with hmem | hmem
      · rcases List.mem_cons.mp hmem with rfl | hmem
        · exact .inr List.mem_cons_self
        · exact .inl hmem
      · exact .inr (List.mem_cons_of_mem _ hmem)

/-- The base chain has every type at the end of a base path within the limit. -/
theorem mem_baseChain {chain : List TypeId} (hchain : s.baseChain type = .ok chain)
    (hpath : s.BaseAbove type distance other) (hdistance : distance ≤ maxDistance) :
    other ∈ chain := by
  have hleads : s.LeadsTo [] type := fun x hx => (List.not_mem_nil hx).elim
  rcases mem_baseChainFrom _ hchain hleads hpath (Nat.lt_succ_of_le hdistance) with hmem | hmem
  · exact (List.not_mem_nil hmem).elim
  · exact hmem

/-! ## Ancestries -/

/-- Every type found so far is at the end of a path of its distance, and none is too far away. -/
def FoundAbove (s : Store) (type : TypeId) (distance : Nat) (found : List (TypeId × Nat)) : Prop :=
  ∀ entry ∈ found, s.Above type entry.2 entry.1 ∧ entry.2 ≤ distance

theorem lookAbove_sound {lower : TypeId} {found found' : List (TypeId × Nat)}
    (hlower : s.Above type distance lower) (hfound : s.FoundAbove type (distance + 1) found)
    (h : s.lookAbove distance found lower = .ok found') :
    s.FoundAbove type (distance + 1) found' := by
  unfold lookAbove at h
  split at h
  · cases h
    exact hfound
  next hfew =>
  clear hfew
  obtain ⟨d, hd, hall⟩ := bind_eq_ok.mp h
  cases hall
  have hedges : ∀ upper ∈ d.supertypes, s.DirectSupertype lower upper := fun upper hupper =>
    ⟨d, descriptor_eq_ok.mp hd, hupper⟩
  -- the supertypes are looked at one by one, and each may be found already
  generalize d.supertypes = uppers at hedges
  clear h
  induction uppers generalizing found with
  | nil => exact hfound
  | cons upper uppers ih =>
    rw [List.foldl_cons]
    refine ih ?_ fun upper' hmem => hedges upper' (List.mem_cons_of_mem _ hmem)
    split
    · exact hfound
    · refine List.forall_mem_cons.mpr ⟨⟨?_, Nat.le_refl _⟩, hfound⟩
      exact .step hlower (hedges upper List.mem_cons_self)

theorem foldlM_lookAbove_sound {level : List TypeId} :
    ∀ {found found' : List (TypeId × Nat)}, (∀ lower ∈ level, s.Above type distance lower) →
      s.FoundAbove type (distance + 1) found →
      level.foldlM (s.lookAbove distance) found = .ok found' →
      s.FoundAbove type (distance + 1) found' := by
  induction level with
  | nil =>
    intro found found' _ hfound h
    cases h
    exact hfound
  | cons lower level ih =>
    intro found found' hlevel hfound h
    rw [List.foldlM_cons] at h
    obtain ⟨next, hstep, hrest⟩ := bind_eq_ok.mp h
    exact ih (fun lower' hmem => hlevel lower' (List.mem_cons_of_mem _ hmem))
      (lookAbove_sound (hlevel lower List.mem_cons_self) hfound hstep) hrest

/-- The types found at the last distance, in the order of their discovery. -/
def lastLevel (distance : Nat) (found : List (TypeId × Nat)) : List TypeId :=
  ((found.takeWhile (·.2 == distance)).map Prod.fst).reverse

theorem FoundAbove.lastLevel {found : List (TypeId × Nat)} (h : s.FoundAbove type distance found) :
    ∀ lower ∈ Store.lastLevel distance found, s.Above type distance lower := by
  intro lower hlower
  obtain ⟨entry, hentry, rfl⟩ := List.mem_map.mp (List.mem_reverse.mp hlower)
  have hdistance : entry.2 = distance := by
    have hkept := List.mem_takeWhile_imp hentry
    simpa using hkept
  have hmem := (List.takeWhile_sublist _).subset hentry
  exact hdistance ▸ (h entry hmem).1

/-- One level of the walk. -/
theorem walk_succ (levels : Nat) (found : List (TypeId × Nat)) :
    s.walk (levels + 1) distance found =
      match lastLevel distance found with
      | [] => .ok found
      | level => level.foldlM (s.lookAbove distance) found >>= s.walk levels (distance + 1) := by
  rw [walk]
  rfl

theorem FoundAbove.mono {found : List (TypeId × Nat)} (h : s.FoundAbove type distance found)
    {distance' : Nat} (hle : distance ≤ distance') : s.FoundAbove type distance' found :=
  fun entry hentry => ⟨(h entry hentry).1, Nat.le_trans (h entry hentry).2 hle⟩

/-- A walk finds types at the end of paths only, and goes no further than its levels allow. -/
theorem walk_sound (levels : Nat) :
    ∀ {distance : Nat} {found found' : List (TypeId × Nat)}, s.FoundAbove type distance found →
      s.walk levels distance found = .ok found' →
      s.FoundAbove type (distance + levels) found' := by
  induction levels with
  | zero =>
    intro distance found found' hfound h
    cases h
    exact hfound
  | succ levels ih =>
    intro distance found found' hfound h
    rw [walk_succ] at h
    split at h
    · cases h
      exact hfound.mono (Nat.le_add_right _ _)
    obtain ⟨next, hstep, hrest⟩ := bind_eq_ok.mp h
    have hnext := foldlM_lookAbove_sound hfound.lastLevel (hfound.mono (Nat.le_succ _)) hstep
    rw [Nat.add_comm levels 1, ← Nat.add_assoc]
    exact ih hnext hrest

theorem foundAbove_self (s : Store) (type : TypeId) : s.FoundAbove type 0 [(type, 0)] := by
  intro entry hentry
  rw [List.mem_singleton.mp hentry]
  exact ⟨.self, Nat.le_refl 0⟩

/-- Every member of an ancestry is at the end of a path of its distance, which is within the limit;
its base chain is that of the type. -/
theorem ancestry_sound {a : Ancestry} (h : s.ancestry type = .ok a) :
    s.baseChain type = .ok a.chain ∧ s.FoundAbove type maxDistance a.members := by
  obtain ⟨chain, hchain, h⟩ := bind_eq_ok.mp h
  obtain ⟨found, hfound, h⟩ := bind_eq_ok.mp h
  cases h
  have hsound := walk_sound _ (s.foundAbove_self type) hfound
  rw [Nat.zero_add] at hsound
  exact ⟨hchain, fun entry hentry => hsound entry (List.mem_reverse.mp hentry)⟩

/-! ## Assignability to supertypes -/

/-- A type that is built from the definition itself is the nearest one. -/
theorem nearestBuiltFrom_self {d : Descriptor} (hd : s.get? type = some d) {definition : TypeId}
    (h : s.definitionOf? type = some definition) :
    s.nearestBuiltFrom type definition = .ok (some type) := by
  rw [nearestBuiltFrom, descriptor_eq_ok.mpr hd]
  exact if_pos h

/-- What is found is known, is built from the definition, and is the type itself or in its
ancestry. -/
theorem of_nearestBuiltFrom {definition found : TypeId}
    (h : s.nearestBuiltFrom type definition = .ok (some found)) :
    type < s.size ∧ s.definitionOf? found = some definition ∧
      (found = type ∨ ∃ a, s.ancestry type = .ok a ∧ found ∈ a.types) := by
  obtain ⟨d, hd, h⟩ := bind_eq_ok.mp h
  refine ⟨lt_of_get? (descriptor_eq_ok.mp hd), ?_⟩
  split at h
  · next hself =>
    cases h
    exact ⟨hself, .inl rfl⟩
  · obtain ⟨a, ha, h⟩ := bind_eq_ok.mp h
    have hfind := Except.ok.inj h
    have hbuilt := List.find?_some hfind
    rw [beq_iff_eq] at hbuilt
    exact ⟨hbuilt, .inr ⟨a, ha, List.mem_of_find?_eq_some hfind⟩⟩

/-- The nearest type is asked for of known types only. -/
theorem lt_of_nearestBuiltFrom {definition : TypeId} {nearest : Option TypeId}
    (h : s.nearestBuiltFrom type definition = .ok nearest) : type < s.size := by
  obtain ⟨d, hd, -⟩ := bind_eq_ok.mp h
  exact lt_of_get? (descriptor_eq_ok.mp hd)

/-- What is found has a descriptor. -/
theorem exists_get?_of_nearestBuiltFrom {definition found : TypeId}
    (h : s.nearestBuiltFrom type definition = .ok (some found)) :
    ∃ f, s.get? found = some f :=
  exists_get? (lt_of_definitionOf? (of_nearestBuiltFrom h).2.1)

theorem Ancestry.contains_of_mem {a : Ancestry} (h : other ∈ a.types) :
    a.contains other = true := by
  obtain ⟨entry, hentry, rfl⟩ := List.mem_map.mp h
  exact List.lookup_isSome_iff.mpr ⟨entry, hentry, beq_self_eq_true entry.1⟩

theorem Ancestry.mem_of_contains {a : Ancestry} (h : a.contains other = true) :
    other ∈ a.types := by
  obtain ⟨entry, hentry, heq⟩ := List.lookup_isSome_iff.mp h
  exact List.mem_map.mpr ⟨entry, hentry, (eq_of_beq heq).symm⟩

/-- Assignability of known types. -/
theorem accepts_eq {target candidate : TypeId} {d : Descriptor} (hd : s.get? target = some d)
    (hcandidate : candidate < s.size) :
    s.accepts target candidate =
      if target = candidate ∨ s.isRoot target ∨ s.isNullableOf d candidate then .ok true
      else if d.isInterface then (s.ancestry candidate).map (·.contains target)
      else (s.baseChain candidate).map (·.contains target) := by
  obtain ⟨c, hc⟩ := exists_get? hcandidate
  unfold accepts
  rw [descriptor, hd, descriptor, hc]
  show (if target = candidate ∨ s.isRoot target ∨ s.isNullableOf d candidate then .ok true
    else if d.isInterface then do
      let a ← s.ancestry candidate
      return a.contains target
    else do
      let chain ← s.baseChain candidate
      return chain.contains target) = _
  rfl

theorem lt_of_accepts {target candidate : TypeId} {answer : Bool}
    (h : s.accepts target candidate = .ok answer) : target < s.size ∧ candidate < s.size := by
  obtain ⟨d, hd, h⟩ := bind_eq_ok.mp h
  obtain ⟨e, he, -⟩ := bind_eq_ok.mp h
  exact ⟨lt_of_get? (descriptor_eq_ok.mp hd), lt_of_get? (descriptor_eq_ok.mp he)⟩

/-- A known type may be stored where it is expected itself. -/
theorem accepts_self (htype : type < s.size) : s.accepts type type = .ok true := by
  obtain ⟨d, hd⟩ := exists_get? htype
  rw [accepts_eq hd htype, if_pos (.inl rfl)]

/-- A type may be stored where the nearest supertype that is built from some definition is
expected. -/
theorem WellFormed.accepts_of_nearestBuiltFrom (hs : s.WellFormed) {definition found : TypeId}
    (h : s.nearestBuiltFrom type definition = .ok (some found)) :
    s.accepts found type = .ok true := by
  obtain ⟨htype, -, rfl | ⟨a, ha, hfound⟩⟩ := of_nearestBuiltFrom h
  · exact accepts_self htype
  obtain ⟨hchain, hmembers⟩ := ancestry_sound ha
  obtain ⟨entry, hentry, rfl⟩ := List.mem_map.mp hfound
  obtain ⟨hpath, hdistance⟩ := hmembers entry hentry
  obtain ⟨d, hd⟩ := exists_get? (hpath.lt_size hs htype)
  rw [accepts_eq hd htype]
  split
  · rfl
  split
  · rw [ha]
    exact congrArg Except.ok (Ancestry.contains_of_mem hfound)
  · next hclass =>
    have hnot : s.isInterface entry.1 = false := by
      rw [isInterface, hd]
      exact Bool.eq_false_iff.mpr hclass
    rw [hchain]
    exact congrArg Except.ok
      (List.contains_iff_mem.mpr (mem_baseChain hchain (hpath.baseAbove hs hnot) hdistance))

end Store

end NominalTypes
