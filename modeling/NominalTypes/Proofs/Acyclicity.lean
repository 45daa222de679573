import Mathlib.Data.Fintype.EquivFin
import Mathlib.Order.WellFounded
import NominalTypes.Proofs.Building.Reachable
import NominalTypes.Proofs.Hierarchy.Supertypes

/-!
# Cycles of supertypes

A declaration may name its own type among its supertypes, alone or applied to arguments, and
nothing keeps it from doing so. This is the only way to a cycle. The declared type behind a type is
never older than those behind its supertypes: the supertypes of a definition were read when
everything else was older, and replacing parameters does not touch the tops of trees. So all types
on a cycle have the same declared type behind them, and that one names itself.

- `Store.namesItself`: a declared type that names itself.
- `Store.Consistent.heads_eq`: a type and the declared type behind it have the same declared types
  behind their supertypes.
- `Store.Acyclic`, `Store.Acyclic.length_le`: without cycles all paths are short.
- `Store.ClearAbove`, `Store.ClearAbove.baseChainFrom_eq`: base chains end by themselves where no
  such type is met.
- `Store.Reachable.cycle_iff_namesItself`: both in one.
-/

namespace NominalTypes.Store

variable {s : Store} {type other : TypeId}

/-- A declared type has itself, or a type built from it, among its direct supertypes. -/
def namesItself (s : Store) (declared : TypeId) : Bool :=
  match s.get? declared with
  | some d => !d.origin.isInstantiation && d.supertypes.any fun other => s.head other == declared
  | none => false

theorem namesItself_iff {declared : TypeId} :
    s.namesItself declared = true ↔ ∃ d, s.get? declared = some d ∧
      d.origin.isInstantiation = false ∧ ∃ other ∈ d.supertypes, s.head other = declared := by
  unfold namesItself
  cases hd : s.get? declared with
  | none => simp
  | some d => simp

/-! ## The declared types behind supertypes -/

/-- A type has the same declared types behind its supertypes as the declared type behind itself. -/
theorem Consistent.heads_eq (hs : s.Coherent) {d : Descriptor} (hd : s.get? type = some d) :
    ∃ g, s.get? (s.head type) = some g ∧ g.origin.isInstantiation = false ∧
      d.supertypes.map s.head = g.supertypes.map s.head := by
  have hwf := hs.wellFormed
  cases hinstantiation : d.origin.isInstantiation with
  | false =>
    -- what is not an instantiation is the declared type behind itself
    have hself : s.head type = type := by
      unfold head
      rw [definitionOf?_eq_origin?, origin?_of_get? hd]
      cases horigin : d.origin with
      | instantiation _ _ _ =>
        rw [horigin] at hinstantiation
        cases hinstantiation
      | _ => rfl
    exact ⟨d, hself.symm ▸ hd, hinstantiation, rfl⟩
  | true =>
    obtain ⟨definition, args, isOpen, horigin⟩ : ∃ definition args isOpen,
        d.origin = .instantiation definition args isOpen := by
      cases horigin : d.origin with
      | instantiation definition args isOpen => exact ⟨definition, args, isOpen, rfl⟩
      | _ =>
        rw [horigin] at hinstantiation
        cases hinstantiation
    have ho : s.origin? type = some (.instantiation definition args isOpen) := by
      rw [origin?_of_get? hd, horigin]
    obtain ⟨d', g, hi, hargs⟩ := hwf.instantiates ho
    have hd' := hi.type_eq
    rw [hd] at hd'
    cases hd'
    have hhead : s.head type = definition := by
      unfold head
      rw [definitionOf?_eq_origin?, ho]
      rfl
    refine ⟨g, hhead.symm ▸ hi.definition_eq, by rw [hi.parameters]; rfl, ?_⟩
    have htrees := (hs.coherent type (lt_of_get? hd) id).map_supertypes hd horigin hi.definition_eq
    have hheads : (d.supertypes.map s.tree).map TypeTree.head = d.supertypes.map s.head := by
      rw [List.map_map]
      exact List.map_congr_left fun x _ => s.head_tree x
    rw [← hheads, htrees, List.map_map]
    exact List.map_congr_left fun x hx =>
      WellFormed.head_image (hi.isParameter hwf) (hi.supertype_isParameter hwf hx)

/-- For every supertype of a type, the declared type behind the type has a supertype with the same
declared type behind it. -/
theorem DirectSupertype.exists_head_eq (h : s.DirectSupertype type other) (hs : s.Coherent) :
    ∃ g, s.get? (s.head type) = some g ∧ g.origin.isInstantiation = false ∧
      ∃ x ∈ g.supertypes, s.head x = s.head other := by
  obtain ⟨d, hd, hother⟩ := h
  obtain ⟨g, hg, hdeclared, hheads⟩ := hs.heads_eq hd
  have hmem : s.head other ∈ g.supertypes.map s.head := hheads ▸ List.mem_map_of_mem hother
  exact ⟨g, hg, hdeclared, List.mem_map.mp hmem⟩

/-- The declared type behind a supertype is not younger than the one behind the type. -/
theorem DirectSupertype.head_le (h : s.DirectSupertype type other) (hs : s.Coherent) :
    s.head other ≤ s.head type := by
  obtain ⟨g, hg, hdeclared, x, hx, heq⟩ := h.exists_head_eq hs
  rw [← heq]
  exact (hs.wellFormed.sound _ g hg).head_le hdeclared x hx

/-- If the declared type behind a supertype is the same, it names itself. -/
theorem DirectSupertype.namesItself (h : s.DirectSupertype type other) (hs : s.Coherent)
    (heq : s.head other = s.head type) : s.namesItself (s.head type) = true := by
  obtain ⟨g, hg, hdeclared, x, hx, heq'⟩ := h.exists_head_eq hs
  exact namesItself_iff.mpr ⟨g, hg, hdeclared, x, hx, heq'.trans heq⟩

/-- A type built from a declared type that names itself has a supertype built from it too. -/
theorem Consistent.exists_directSupertype (hs : s.Coherent) (htype : type < s.size)
    (hself : s.namesItself (s.head type) = true) :
    ∃ other, s.DirectSupertype type other ∧ s.head other = s.head type := by
  obtain ⟨d, hd⟩ := exists_get? htype
  obtain ⟨g, hg, -, hheads⟩ := hs.heads_eq hd
  obtain ⟨g', hg', -, x, hx, heq⟩ := namesItself_iff.mp hself
  rw [hg] at hg'
  cases hg'
  have hmem : s.head x ∈ d.supertypes.map s.head := hheads ▸ List.mem_map_of_mem hx
  obtain ⟨other, hother, heq'⟩ := List.mem_map.mp hmem
  exact ⟨other, ⟨d, hd, hother⟩, heq'.trans heq⟩

/-! ## Cycles -/

/-- Along a path upwards the declared types behind the types do not get younger, and the path ends
where it began only if the first step keeps the declared type. -/
theorem head_le_of_transGen (hs : s.Coherent)
    (h : Relation.TransGen s.DirectSupertype type other) : s.head other ≤ s.head type := by
  induction h with
  | single h => exact h.head_le hs
  | tail _ h ih => exact Nat.le_trans (h.head_le hs) ih

/-- A type on a cycle is built from a declared type that names itself. -/
theorem namesItself_of_cycle (hs : s.Coherent)
    (h : Relation.TransGen s.DirectSupertype type type) : s.namesItself (s.head type) = true := by
  obtain ⟨other, hstep, hrest⟩ := Relation.TransGen.head'_iff.mp h
  have hle := hstep.head_le hs
  have hge : s.head type ≤ s.head other := by
    rcases Relation.reflTransGen_iff_eq_or_transGen.mp hrest with heq | hpath
    · rw [heq]
    · exact head_le_of_transGen hs hpath
  exact hstep.namesItself hs (Nat.le_antisymm hle hge)

/-- Where every type of a kind has a successor of the same kind, and there are finitely many of
them, one of them is reached from itself: otherwise the paths would be a well-founded order. -/
theorem exists_cycle {r : TypeId → TypeId → Prop} {p : TypeId → Prop} {bound : Nat}
    (hbound : ∀ t, p t → t < bound) (hnext : ∀ t, p t → ∃ u, r t u ∧ p u) {start : TypeId}
    (hstart : p start) : ∃ t, p t ∧ Relation.TransGen r t t := by
  by_contra hnone
  -- without a cycle the paths are an order, and a least type would have no successor
  have hirrefl : Std.Irrefl fun u t : {t : Fin bound // p t} => Relation.TransGen r t.1 u.1 :=
    ⟨fun t ht => hnone ⟨t.1, t.2, ht⟩⟩
  have htrans : IsTrans {t : Fin bound // p t} fun u t => Relation.TransGen r t.1 u.1 :=
    ⟨fun _ _ _ h h' => h'.trans h⟩
  have hwf := Finite.wellFounded_of_trans_of_irrefl
    fun u t : {t : Fin bound // p t} => Relation.TransGen r t.1 u.1
  obtain ⟨t, -, hmin⟩ := hwf.has_min Set.univ ⟨⟨⟨start, hbound start hstart⟩, hstart⟩, trivial⟩
  obtain ⟨u, hstep, hu⟩ := hnext t.1 t.2
  exact hmin ⟨⟨u, hbound u hu⟩, hu⟩ trivial (.single hstep)

/-- A declared type that names itself leads to a cycle of types built from it. -/
theorem exists_cycle_of_namesItself (hs : s.Coherent) {declared : TypeId}
    (h : s.namesItself declared = true) :
    ∃ type, s.head type = declared ∧ Relation.TransGen s.DirectSupertype type type := by
  obtain ⟨d, hd, hdeclared, x, hx, heq⟩ := namesItself_iff.mp h
  have hstart : x < s.size ∧ s.head x = declared :=
    ⟨(hs.wellFormed.sound declared d hd).supertypes_lt hx, heq⟩
  obtain ⟨type, ⟨-, hhead⟩, hcycle⟩ := exists_cycle (r := s.DirectSupertype)
    (p := fun t => t < s.size ∧ s.head t = declared) (fun t ht => ht.1) (fun t ⟨ht, hhead⟩ => by
      obtain ⟨u, hstep, hu⟩ := hs.exists_directSupertype ht (hhead.symm ▸ h)
      exact ⟨u, hstep, hstep.lt_size hs.wellFormed, hu.trans hhead⟩) hstart
  exact ⟨type, hhead, hcycle⟩

/-- No type is above itself. -/
def Acyclic (s : Store) : Prop := ∀ type, ¬ Relation.TransGen s.DirectSupertype type type

/-- There are no cycles if no declared type names itself. -/
theorem acyclic_iff (hs : s.Coherent) :
    s.Acyclic ↔ ∀ declared, s.namesItself declared = false := by
  constructor
  · intro h declared
    refine Bool.eq_false_iff.mpr fun hself => ?_
    obtain ⟨type, -, hcycle⟩ := exists_cycle_of_namesItself hs hself
    exact h type hcycle
  · intro h type hcycle
    have hself := namesItself_of_cycle hs hcycle
    rw [h (s.head type)] at hself
    cases hself

/-- In a store with few types it can be looked up whether there are cycles. -/
theorem acyclic_of_namesItself (hs : s.Coherent)
    (h : ∀ declared < s.size, s.namesItself declared = false) : s.Acyclic := by
  refine (acyclic_iff hs).mpr fun declared => Bool.eq_false_iff.mpr fun hself => ?_
  obtain ⟨d, hd, -⟩ := namesItself_iff.mp hself
  rw [h declared (lt_of_get? hd)] at hself
  cases hself

/-- Without cycles, every step of a path comes to an older declared type. -/
theorem Acyclic.length_le (h : s.Acyclic) (hs : s.Coherent) {length : Nat}
    (hpath : s.Above type length other) : length + s.head other ≤ s.head type := by
  induction hpath with
  | self => exact Nat.le_of_eq (Nat.zero_add _)
  | @step length lower upper path edge ih =>
    have hlt : s.head upper < s.head lower := by
      refine Nat.lt_of_le_of_ne (edge.head_le hs) fun heq => ?_
      have hself := edge.namesItself hs heq
      rw [(acyclic_iff hs).mp h] at hself
      cases hself
    calc
      length + 1 + s.head upper = length + (s.head upper + 1) := by
        rw [Nat.add_assoc, Nat.add_comm 1]
      _ ≤ length + s.head lower := Nat.add_le_add_left hlt length
      _ ≤ s.head type := ih

/-! ## Base chains -/

/-- At most `length` types of the base chain from a type on, wherever it leads. -/
def unguardedChain (s : Store) : Nat → TypeId → List TypeId
  | 0, _ => []
  | length + 1, type =>
    match (s.get? type).bind Descriptor.base with
    | none => [type]
    | some base => type :: s.unguardedChain length base

/-- Nothing above the type is built from a declared type that names itself. -/
def ClearAbove (s : Store) (type : TypeId) : Prop :=
  ∀ other, Relation.ReflTransGen s.DirectSupertype type other →
    s.namesItself (s.head other) = false

/-- One step up from a type that is clear, the declared type is older. -/
theorem ClearAbove.head_lt (h : s.ClearAbove type) (hs : s.Coherent)
    (hstep : s.DirectSupertype type other) : s.head other < s.head type := by
  refine Nat.lt_of_le_of_ne (hstep.head_le hs) fun heq => ?_
  have hself := hstep.namesItself hs heq
  rw [h type .refl] at hself
  cases hself

theorem ClearAbove.step (h : s.ClearAbove type) (hstep : s.DirectSupertype type other) :
    s.ClearAbove other := fun top hpath => h top (.head hstep hpath)

/-- The guard against repeated types does not end a clear base chain: every type that has been seen
on it has a younger declared type behind it. -/
theorem ClearAbove.baseChainFrom_eq (hs : s.Coherent) (length : Nat) :
    ∀ {seen : List TypeId} {type : TypeId}, type < s.size → s.ClearAbove type →
      (∀ x ∈ seen, s.head type < s.head x) →
      s.baseChainFrom length seen type = .ok (s.unguardedChain length type) := by
  induction length with
  | zero => exact fun _ _ _ => rfl
  | succ length ih =>
    intro seen type htype hclear hseen
    obtain ⟨d, hd⟩ := exists_get? htype
    have hnew : type ∉ seen := fun hmem => Nat.lt_irrefl _ (hseen type hmem)
    rw [baseChainFrom_succ hd hnew, unguardedChain, hd, Option.bind_some]
    cases hbase : d.base with
    | none => rfl
    | some base =>
      have hstep := DirectSupertype.of_base hd hbase
      have hlt := hclear.head_lt hs hstep
      have hrest : s.baseChainFrom length (type :: seen) base =
          .ok (s.unguardedChain length base) :=
        ih (hstep.lt_size hs.wellFormed) (hclear.step hstep)
          (List.forall_mem_cons.mpr ⟨hlt, fun x hx => Nat.lt_trans hlt (hseen x hx)⟩)
      dsimp only
      rw [hrest]
      rfl

/-- A path upwards from a clear type, along base types and interfaces, is no longer than there are
older declared types. -/
theorem ClearAbove.length_le (hs : s.Coherent) :
    ∀ {path : List TypeId} {type : TypeId}, s.ClearAbove type →
      List.IsChain s.DirectSupertype (type :: path) → path.length ≤ s.head type
  | [], _, _, _ => Nat.zero_le _
  | next :: path, type, hclear, hpath => by
    obtain ⟨hstep, hrest⟩ := List.isChain_cons_cons.mp hpath
    have hlt := hclear.head_lt hs hstep
    have hlength := length_le hs (hclear.step hstep) hrest
    exact Nat.lt_of_le_of_lt hlength hlt

/-- A declared type names itself exactly if some type built from it is on a cycle. Where nothing
above a type is built from such a declared type, all paths upwards are finite, and the base chain
ends at a type without base or at the limit of its length. -/
theorem Reachable.cycle_iff_namesItself (hs : s.Reachable) :
    (∀ declared, s.namesItself declared = true ↔
      ∃ type, s.head type = declared ∧ Relation.TransGen s.DirectSupertype type type) ∧
    ∀ type, type < s.size → s.ClearAbove type →
      (∀ path, List.IsChain s.DirectSupertype (type :: path) → path.length ≤ s.head type) ∧
        s.baseChain type = .ok (s.unguardedChain (maxDistance + 1) type) := by
  have hcoherent := hs.coherent
  -- a cycle keeps the declared type of its first step, and that one names itself
  refine ⟨fun declared => ⟨exists_cycle_of_namesItself hcoherent, ?_⟩, ?_⟩
  · rintro ⟨type, rfl, hcycle⟩
    exact namesItself_of_cycle hcoherent hcycle
  · intro type htype hclear
    refine ⟨fun path hpath => hclear.length_le hcoherent hpath,
      ClearAbove.baseChainFrom_eq hcoherent _ htype hclear ?_⟩
    exact fun x hx => (List.not_mem_nil hx).elim

/-- A class that derives from itself, and a class `C` that derives from a class `B`. -/
def selfDerived : Store :=
  let declared := (Operation.declare
    { Declaration.plain .classType "A" with base := some "A" }).perform.after .empty
  let declared := (Operation.declare (.plain .classType "B")).perform.after declared
  (Operation.declare { Declaration.plain .classType "C" with base := some "B" }).perform.after
    declared

theorem reachable_selfDerived : selfDerived.Reachable := .step _ (.step _ (.step _ .empty))

/-- `A` is its own base type. -/
theorem not_acyclic :
    ¬ ∀ s : Store, s.Reachable → ∀ type, ¬ Relation.TransGen s.DirectSupertype type type := by
  intro hacyclic
  refine hacyclic selfDerived reachable_selfDerived 0 (.single ?_)
  exact ⟨⟨"A", none, .classType, .none, .declared, some 0, []⟩, by decide +kernel, by decide⟩

theorem clearAbove_selfDerived : selfDerived.ClearAbove 2 := by
  have hB : selfDerived.get? 1 = some ⟨"B", none, .classType, .none, .declared, none, []⟩ := by
    decide +kernel
  have hC : selfDerived.get? 2 = some ⟨"C", none, .classType, .none, .declared, some 1, []⟩ := by
    decide +kernel
  intro other hpath
  have hother : other = 2 ∨ other = 1 := by
    induction hpath with
    | refl => exact .inl rfl
    | tail _ hstep ih =>
      obtain ⟨d, hd, hmem⟩ := hstep
      rcases ih with rfl | rfl
      · rw [hC] at hd
        cases hd
        exact .inr (List.mem_singleton.mp hmem)
      · rw [hB] at hd
        cases hd
        exact (List.not_mem_nil hmem).elim
  rcases hother with rfl | rfl <;> decide +kernel

/-- `A` is on a cycle, and the base chain of `C` ends at `B`. -/
theorem cycle_selfDerived :
    (∃ type, selfDerived.head type = 0 ∧
      Relation.TransGen selfDerived.DirectSupertype type type) ∧
      selfDerived.baseChain 2 = .ok [2, 1] := by
  obtain ⟨hcycle, hchain⟩ := reachable_selfDerived.cycle_iff_namesItself
  refine ⟨(hcycle 0).mp (by decide +kernel), ?_⟩
  have hunguarded : selfDerived.unguardedChain (maxDistance + 1) 2 = [2, 1] := by decide +kernel
  rw [(hchain 2 (by decide +kernel) clearAbove_selfDerived).2, hunguarded]

end NominalTypes.Store
