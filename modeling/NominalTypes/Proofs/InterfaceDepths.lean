import Mathlib.Data.List.Chain
import Mathlib.Order.Bounds.Defs
import NominalTypes.Proofs.Acyclicity
import NominalTypes.Proofs.Hierarchy.Depth

/-!
# Interface depths and chains of interfaces

A chain of interfaces goes from an interface to one that it lists, and so on upwards. The depth of
an interface is the length of its longest chain. Depths are remembered on the way and an interface
at the last level counts as one without base interfaces, whatever it lists. Neither is ever seen
where no chain is longer than the walk: an interface at the last level is at the end of a longest
chain then, and a depth that is remembered at one level is right at any other.

- `Store.Extends`, `Store.IsChainFrom`: the edges, and the chains.
- `Store.IsChainFrom.nodup`: no interface comes twice in a chain if none is above itself.
- `Store.HasDepth.isGreatest`: depths are lengths of longest chains.
- `Store.Reachable.interfaceDepth_isGreatest`: the main result.
-/

namespace NominalTypes.Store

open Relation (TransGen ReflTransGen)

variable {s : Store} {type other : TypeId} {chain : List TypeId} {depth : Nat}

/-! ## Chains -/

/-- The first type lists the second one among its interfaces. -/
def Extends (s : Store) (lower upper : TypeId) : Prop :=
  ∃ d, s.get? lower = some d ∧ upper ∈ d.interfaces

/-- Beginning with the given type, each type of the chain lists the next one among its
interfaces. -/
structure IsChainFrom (s : Store) (type : TypeId) (chain : List TypeId) : Prop where
  head : chain.head? = some type
  linked : chain.IsChain s.Extends

theorem Extends.directSupertype (h : s.Extends type other) : s.DirectSupertype type other := by
  obtain ⟨d, hd, hmem⟩ := h
  exact ⟨d, hd, Descriptor.mem_supertypes_of_mem hmem⟩

theorem Extends.isInterface (h : s.Extends type other) (hs : s.WellFormed) :
    s.isInterface other = true := by
  obtain ⟨d, hd, hmem⟩ := h
  exact isInterface_iff.mpr ((hs.sound type d hd).interfaces other hmem)

/-- An interface has no supertypes but those that it lists. -/
theorem DirectSupertype.extends_of_isInterface (h : s.DirectSupertype type other)
    (hs : s.WellFormed) (htype : s.isInterface type = true) : s.Extends type other := by
  obtain ⟨d, hd, hmem⟩ := h
  rw [hs.supertypes_of_interface hd htype] at hmem
  exact ⟨d, hd, hmem⟩

theorem isChainFrom_singleton (s : Store) (type : TypeId) : s.IsChainFrom type [type] :=
  ⟨rfl, .singleton type⟩

theorem IsChainFrom.cons (h : s.IsChainFrom other chain) (hedge : s.Extends type other) :
    s.IsChainFrom type (type :: chain) := by
  refine ⟨rfl, List.isChain_cons.mpr ⟨fun next hnext => ?_, h.linked⟩⟩
  rw [h.head] at hnext
  cases hnext
  exact hedge

/-- A chain is its first type, followed by nothing or by a chain from a type that is listed. -/
theorem IsChainFrom.cases (h : s.IsChainFrom type chain) : chain = [type] ∨
    ∃ next rest, chain = type :: rest ∧ s.Extends type next ∧ s.IsChainFrom next rest := by
  obtain ⟨hhead, hlinked⟩ := h
  obtain ⟨rest, rfl⟩ := List.head?_eq_some_iff.mp hhead
  obtain ⟨hfirst, hrest⟩ := List.isChain_cons.mp hlinked
  cases rest with
  | nil => exact .inl rfl
  | cons next rest => exact .inr ⟨next, next :: rest, rfl, hfirst next rfl, rfl, hrest⟩

/-- There is a path along every chain. -/
theorem IsChainFrom.exists_above (h : s.IsChainFrom type chain) :
    ∃ distance top, s.Above type distance top ∧ chain.length = distance + 1 := by
  induction chain generalizing type with
  | nil => cases h.head
  | cons first rest ih =>
    rcases h.cases with heq | ⟨next, rest', heq, hedge, hrest⟩
    · cases heq
      exact ⟨0, _, .self, rfl⟩
    · cases heq
      obtain ⟨distance, top, hpath, hlength⟩ := ih hrest
      refine ⟨1 + distance, top, (Above.self.step hedge.directSupertype).trans hpath, ?_⟩
      rw [List.length_cons, hlength, Nat.add_comm 1]

/-- Above an interface there is a chain along every path. -/
theorem WellFormed.exists_isChainFrom (hs : s.WellFormed) {distance : Nat} {top : TypeId}
    (htype : s.isInterface type = true) (h : s.Above type distance top) :
    ∃ chain, s.IsChainFrom type chain ∧ chain.length = distance + 1 := by
  induction distance generalizing type with
  | zero => exact ⟨[type], s.isChainFrom_singleton type, rfl⟩
  | succ distance ih =>
    obtain ⟨next, hedge, hrest⟩ := h.head
    have hextends := hedge.extends_of_isInterface hs htype
    obtain ⟨chain, hchain, hlength⟩ := ih (hextends.isInterface hs) hrest
    exact ⟨type :: chain, hchain.cons hextends, by rw [List.length_cons, hlength]⟩

theorem exists_above_of_transGen (h : TransGen s.Extends type other) :
    ∃ distance, s.Above type (distance + 1) other := by
  induction h with
  | single hedge => exact ⟨0, .step .self hedge.directSupertype⟩
  | tail _ hedge ih =>
    obtain ⟨distance, hpath⟩ := ih
    exact ⟨distance + 1, .step hpath hedge.directSupertype⟩

/-- If no interface above the first one is above itself, then no interface comes twice. -/
theorem IsChainFrom.nodup (h : s.IsChainFrom type chain)
    (hacyclic : ∀ other, ReflTransGen s.Extends type other → ¬ TransGen s.Extends other other) :
    chain.Nodup := by
  -- each interface of the chain is above all those in front of it
  have hpairs : chain.Pairwise (TransGen s.Extends) :=
    List.isChain_iff_pairwise.mp (h.linked.imp fun _ _ => .single)
  obtain ⟨rest, rfl⟩ := List.head?_eq_some_iff.mp h.head
  obtain ⟨hfirst, hrest⟩ := List.pairwise_cons.mp hpairs
  refine List.nodup_cons.mpr ⟨fun hmem => hacyclic type .refl (hfirst type hmem), ?_⟩
  refine hrest.imp_of_mem fun {lower _} hlower _ habove heq => ?_
  exact hacyclic lower (hfirst lower hlower).to_reflTransGen (heq ▸ habove)

/-! ## Depths -/

/-- A depth is the length of a longest chain. -/
theorem HasDepth.isGreatest (h : s.HasDepth type depth) (hs : s.WellFormed)
    (htype : s.isInterface type = true) :
    IsGreatest {length | ∃ chain, s.IsChainFrom type chain ∧ chain.length = length} depth := by
  constructor
  · obtain ⟨distance, top, hpath, rfl⟩ := h.exists_path
    exact hs.exists_isChainFrom htype hpath
  · rintro - ⟨chain, hchain, rfl⟩
    obtain ⟨distance, top, hpath, hlength⟩ := hchain.exists_above
    rw [hlength]
    exact h.length_lt hpath

/-- Where no interface above an interface is above itself, and no chain that begins with it has more
interfaces than a walk has levels, its depth is the length of its longest chain, and is greater than
the depths of all interfaces above it. -/
theorem Reachable.interfaceDepth_isGreatest (hs : s.Reachable) (htype : s.isInterface type = true)
    (hacyclic : ∀ other, ReflTransGen s.Extends type other → ¬ TransGen s.Extends other other)
    (hshort : ∀ chain, s.IsChainFrom type chain → chain.Nodup → chain.length ≤ maxDistance + 1) :
    ∃ depth, s.interfaceDepth type = .ok depth ∧
      IsGreatest {length | ∃ chain, s.IsChainFrom type chain ∧ chain.length = length} depth ∧
      ∀ other, TransGen s.Extends type other →
        ∃ depth', s.interfaceDepth other = .ok depth' ∧ depth' < depth := by
  have hwf := hs.coherent.wellFormed
  have hpaths : ∀ {distance : Nat} {top : TypeId}, s.Above type distance top →
      distance ≤ maxDistance := by
    intro distance top hpath
    obtain ⟨chain, hchain, hlength⟩ := hwf.exists_isChainFrom htype hpath
    have hle := hshort chain hchain (hchain.nodup hacyclic)
    omega
  obtain ⟨depth, hrun, hdepth⟩ := hwf.exists_hasDepth_of_interfaceDepth htype hpaths
  refine ⟨depth, hrun, hdepth.isGreatest hwf htype, fun other habove => ?_⟩
  obtain ⟨distance, hpath⟩ := exists_above_of_transGen habove
  obtain ⟨lower, -, hedge⟩ := TransGen.tail'_iff.mp habove
  obtain ⟨depth', hrun', hdepth'⟩ :=
    hwf.exists_hasDepth_of_interfaceDepth (hedge.isInterface hwf) fun {length top} hrest => by
      have hle := hpaths (hpath.trans hrest)
      omega
  exact ⟨depth', hrun', hdepth.lt_of_above hpath hdepth'⟩

/-- An interface `Z`, `X` that lists it, `Y` that lists both and `W` that lists `Z` and `Y`, so that
`Z` is at three distances from `W`. -/
def ladder : Store :=
  Store.empty.afterAll
    [.declare (.plain .interface "Z"),
      .declare { Declaration.plain .interface "X" with interfaces := ["Z"] },
      .declare { Declaration.plain .interface "Y" with interfaces := ["X", "Z"] },
      .declare { Declaration.plain .interface "W" with interfaces := ["Z", "Y"] }]

theorem reachable_ladder : ladder.Reachable := Reachable.empty.afterAll _

theorem acyclic_ladder : ladder.Acyclic :=
  acyclic_of_namesItself reachable_ladder.coherent (by decide +kernel)

/-- The longest chain from `W` is by way of `Y` and `X`. -/
theorem interfaceDepth_ladder :
    ladder.interfaceDepth 3 = .ok 4 ∧
      IsGreatest {length | ∃ chain, ladder.IsChainFrom 3 chain ∧ chain.length = length} 4 := by
  have hinterface : ladder.isInterface 3 = true := by decide +kernel
  have hshort : ∀ chain, ladder.IsChainFrom 3 chain → chain.Nodup →
      chain.length ≤ maxDistance + 1 := by
    intro chain hchain _
    obtain ⟨distance, top, hpath, hlength⟩ := hchain.exists_above
    have hle := acyclic_ladder.length_le reachable_ladder.coherent hpath
    have hhead : ladder.head 3 ≤ maxDistance := by decide +kernel
    rw [hlength]
    exact Nat.succ_le_succ ((Nat.le_add_right _ _).trans (hle.trans hhead))
  obtain ⟨depth, hrun, hgreatest, -⟩ :=
    reachable_ladder.interfaceDepth_isGreatest hinterface (fun other _ hcycle =>
      acyclic_ladder other (hcycle.lift id fun _ _ => Extends.directSupertype)) hshort
  have hfour : ladder.interfaceDepth 3 = .ok 4 := by decide +kernel
  rw [hfour] at hrun
  cases hrun
  exact ⟨hfour, hgreatest⟩

end NominalTypes.Store
