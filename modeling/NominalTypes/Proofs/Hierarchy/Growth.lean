import Mathlib.Data.List.Find
import NominalTypes.Proofs.Building.Consistency
import NominalTypes.Proofs.Hierarchy.Walks

/-!
# Growth does not change what is above old types

The supertypes of a known type are known, so a walk up from an old type meets old types only, and
these have kept their descriptors.

- `Store.KeepsTypes.ancestry_eq`, `Store.KeepsTypes.interfaceDepth_eq`,
  `Store.KeepsTypes.nearestBuiltFrom_eq`, `Store.KeepsTypes.accepts_eq`: the questions about old
  types have the same answers in later stores.
-/

namespace NominalTypes

/-- Operations that agree on every entry of a list agree on the list. -/
theorem mapM_congr {m : Type → Type} [Monad m] [LawfulMonad m] {α β : Type} {f g : α → m β}
    {as : List α} (h : ∀ a ∈ as, f a = g a) : as.mapM f = as.mapM g := by
  induction as with
  | nil => rfl
  | cons a as ih =>
    obtain ⟨hhead, htail⟩ := List.forall_mem_cons.mp h
    rw [List.mapM_cons, List.mapM_cons, hhead, ih htail]

namespace Store

variable {s t : Store} {type : TypeId}

namespace KeepsTypes

theorem descriptor_eq (h : s.KeepsTypes t) (htype : type < s.size) :
    t.descriptor type = s.descriptor type := by
  rw [descriptor, descriptor, h.get?_eq htype]

theorem definitionOf?_eq (h : s.KeepsTypes t) (htype : type < s.size) :
    t.definitionOf? type = s.definitionOf? type := by
  rw [definitionOf?, definitionOf?, h.get?_eq htype]

theorem baseChainFrom_eq (h : s.KeepsTypes t) (hs : s.WellFormed) (length : Nat) :
    ∀ {seen : List TypeId} {type : TypeId}, type < s.size →
      t.baseChainFrom length seen type = s.baseChainFrom length seen type := by
  induction length with
  | zero => exact fun _ => rfl
  | succ length ih =>
    intro seen type htype
    by_cases hseen : type ∈ seen
    · rw [baseChainFrom, baseChainFrom, if_pos hseen, if_pos hseen]
    obtain ⟨d, hd⟩ := exists_get? htype
    rw [baseChainFrom_succ hd hseen, baseChainFrom_succ ((h.get?_eq htype).trans hd) hseen]
    cases hbase : d.base with
    | none => rfl
    | some base =>
      dsimp only
      rw [ih ((DirectSupertype.of_base hd hbase).lt_size hs)]

theorem baseChain_eq (h : s.KeepsTypes t) (hs : s.WellFormed) (htype : type < s.size) :
    t.baseChain type = s.baseChain type := h.baseChainFrom_eq hs _ htype

theorem lookAbove_eq (h : s.KeepsTypes t) (htype : type < s.size) (distance : Nat)
    (found : List (TypeId × Nat)) :
    t.lookAbove distance found type = s.lookAbove distance found type := by
  rw [lookAbove, lookAbove, h.descriptor_eq htype]

theorem foldlM_lookAbove_eq (h : s.KeepsTypes t) (distance : Nat) {level : List TypeId} :
    ∀ {found : List (TypeId × Nat)}, (∀ lower ∈ level, lower < s.size) →
      level.foldlM (t.lookAbove distance) found = level.foldlM (s.lookAbove distance) found := by
  induction level with
  | nil => exact fun _ => rfl
  | cons lower level ih =>
    intro found hlevel
    rw [List.foldlM_cons, List.foldlM_cons, h.lookAbove_eq (hlevel lower List.mem_cons_self)]
    exact congrArg _ (funext fun next => ih fun lower' hmem =>
      hlevel lower' (List.mem_cons_of_mem _ hmem))

theorem walk_eq (h : s.KeepsTypes t) (hs : s.WellFormed) (htype : type < s.size) (levels : Nat) :
    ∀ {distance : Nat} {found : List (TypeId × Nat)}, s.FoundAbove type distance found →
      t.walk levels distance found = s.walk levels distance found := by
  induction levels with
  | zero => exact fun _ => rfl
  | succ levels ih =>
    intro distance found hfound
    -- the types on a level are at the end of paths from an old type, and so they are old
    have hknown : ∀ lower ∈ lastLevel distance found, lower < s.size := fun lower hlower =>
      (hfound.lastLevel lower hlower).lt_size hs htype
    have hlevel : (lastLevel distance found).foldlM (t.lookAbove distance) found =
        (lastLevel distance found).foldlM (s.lookAbove distance) found :=
      h.foldlM_lookAbove_eq distance hknown
    rw [walk_succ, walk_succ]
    split
    · rfl
    rw [hlevel]
    cases hstep : (lastLevel distance found).foldlM (s.lookAbove distance) found with
    | error e => rfl
    | ok next =>
      exact ih (foldlM_lookAbove_sound hfound.lastLevel (hfound.mono (Nat.le_succ _)) hstep)

theorem ancestry_eq (h : s.KeepsTypes t) (hs : s.WellFormed) (htype : type < s.size) :
    t.ancestry type = s.ancestry type := by
  rw [ancestry, ancestry, h.baseChain_eq hs htype,
    h.walk_eq hs htype maxDistance (s.foundAbove_self type)]

theorem nearestBuiltFrom_eq (h : s.KeepsTypes t) (hs : s.WellFormed) (htype : type < s.size)
    (definition : TypeId) :
    t.nearestBuiltFrom type definition = s.nearestBuiltFrom type definition := by
  have hfind : ∀ {a : Ancestry}, s.ancestry type = .ok a →
      a.types.find? (fun ancestor => t.definitionOf? ancestor == some definition) =
        a.types.find? fun ancestor => s.definitionOf? ancestor == some definition := by
    intro a ha
    refine List.find?_congr fun ancestor hancestor => ?_
    obtain ⟨entry, hentry, rfl⟩ := List.mem_map.mp hancestor
    rw [h.definitionOf?_eq (((ancestry_sound ha).2 entry hentry).1.lt_size hs htype)]
  rw [nearestBuiltFrom, nearestBuiltFrom, h.descriptor_eq htype, h.definitionOf?_eq htype,
    h.ancestry_eq hs htype]
  cases ha : s.ancestry type with
  | error e => rfl
  | ok a =>
    show (do
      let _ ← s.descriptor type
      if s.definitionOf? type = some definition then .ok (some type)
      else .ok (a.types.find? fun ancestor => t.definitionOf? ancestor == some definition)) = _
    rw [hfind ha]
    rfl

theorem interfaceDepthWithin_eq (h : s.KeepsTypes t) (hs : s.WellFormed) (levels : Nat) :
    ∀ {type : TypeId}, type < s.size →
      t.interfaceDepthWithin levels type = s.interfaceDepthWithin levels type := by
  induction levels with
  | zero => exact fun _ => rfl
  | succ levels ih =>
    intro type htype
    obtain ⟨d, hd⟩ := exists_get? htype
    have hbases : d.interfaces.mapM (t.interfaceDepthWithin levels) =
        d.interfaces.mapM (s.interfaceDepthWithin levels) :=
      mapM_congr fun base hbase => ih (lt_of_kind? ((hs.sound type d hd).interfaces base hbase))
    refine StateT.ext fun depths => ?_
    rw [run_interfaceDepthWithin_succ hd, hbases.symm,
      run_interfaceDepthWithin_succ ((h.get?_eq htype).trans hd)]

theorem interfaceDepth_eq (h : s.KeepsTypes t) (hs : s.WellFormed) (htype : type < s.size) :
    t.interfaceDepth type = s.interfaceDepth type := by
  rw [interfaceDepth, interfaceDepth, h.interfaceDepthWithin_eq hs maxDistance htype]

/-- What may be stored where an old type is expected does not change for old types. -/
theorem accepts_eq (h : s.KeepsTypes t) (hs : s.WellFormed) {target candidate : TypeId}
    (htarget : target < s.size) (hcandidate : candidate < s.size) :
    t.accepts target candidate = s.accepts target candidate := by
  obtain ⟨d, hd⟩ := exists_get? htarget
  rw [Store.accepts_eq hd hcandidate, Store.accepts_eq ((h.get?_eq htarget).trans hd)
    (Nat.lt_of_lt_of_le hcandidate h.size_le), h.ancestry_eq hs hcandidate,
    h.baseChain_eq hs hcandidate, isRoot, isRoot, isNullableOf, isNullableOf, h.roles_eq]

end KeepsTypes

end Store

end NominalTypes
