import NominalTypes.Proofs.Building.Reachable

/-!
# Declarations that go the same way in any order

A declaration goes through the instantiations of the new type in an order of its own. There are
some only if a supertype mentions the new type, as in `class Node<T> : Base<Node<T>>`; else the
order makes no difference. It makes none for the core library, so there is one core library only.

- `Store.declare_anyOrder`: a declaration that leaves no instantiation of its type.
- `Store.declareAlone`: demands that there is none.
- `Store.core_eq`: the core library is the same in any order.
-/

namespace NominalTypes.Store

open Build (bind_eq_ok_iff)

variable {s t u : Store} {type : TypeId} {d : Declaration} {order : ScanOrder}

/-! ## Declarations without instantiations -/

/-- A type that has no instantiations later on had none before. -/
theorem KeepsOutlines.instantiationsOf_eq_nil (h : s.KeepsOutlines t) (hs : s.WellFormed)
    (ht : t.WellFormed) (hnone : t.instantiationsOf type = []) : s.instantiationsOf type = [] := by
  refine List.eq_nil_iff_forall_not_mem.mpr fun other hother => ?_
  obtain ⟨args, isOpen, ho⟩ := (mem_instantiationsOf hs).mp hother
  have hlater := (mem_instantiationsOf ht).mpr ⟨args, isOpen, h.origin?_some ho⟩
  exact List.not_mem_nil (hnone ▸ hlater)

theorem instantiationsOf_setSupertypes (s : Store) (type definition : TypeId) (base : Option TypeId)
    (interfaces : List TypeId) :
    (s.setSupertypes type base interfaces).instantiationsOf definition =
      s.instantiationsOf definition := by
  have horigin : ∀ other, ((s.setSupertypes type base interfaces).get? other).map
      Descriptor.origin = (s.get? other).map Descriptor.origin := fun other => by
    rw [get?_setSupertypes]
    split
    · rw [Option.map_map]
      rfl
    · rfl
  simp only [instantiationsOf, size_setSupertypes, horigin]

/-- Supertypes that bring no instantiation of the entered type are resolved in the same way in any
order. -/
theorem resolveSupertypes_anyOrder (hs : s.Coherent) (hkind : d.kind ≠ .parameter)
    (hnew : s.qualifiedNames[(d.qualifiedName, d.parameters.length)]? = none)
    (hbase : d.kind = .interface → d.base = none)
    (hrun : resolveSupertypes order s.size d (s.enter d) = (.ok (), t))
    (hnone : t.instantiationsOf s.size = []) (other : ScanOrder) :
    resolveSupertypes other s.size d (s.enter d) = (.ok (), t) := by
  have hscope := s.lt_of_mem_scope d
  obtain ⟨base, v, hfirst, hrun⟩ := bind_eq_ok_iff.mp hrun
  obtain ⟨hv, hbaseKind, hnobase⟩ := (declaredBase_ends (hs.enter hkind hnew) hscope hbase).of_ok
    hfirst
  have hscope' : ∀ entry ∈ d.parameters.zip (s.nextParameters d), entry.2 < v.size :=
    fun entry hentry => Nat.lt_of_lt_of_le (hscope entry hentry) hv.builds.size_le
  obtain ⟨interfaces, u, hsecond, hrun⟩ := bind_eq_ok_iff.mp hrun
  obtain ⟨hu, hkinds⟩ := (declaredInterfaces_ends hv.consistent hscope' d.interfaces).of_ok hsecond
  have hbase' : ∀ b, base = some b → u.kind? b = some .classType := fun b hb =>
    hu.builds.keepsOutlines.kind?_some (hbaseKind b hb)
  have hwf := wellFormed_setSupertypes_entered hkind (hv.trans hu) hbase' hkinds hnobase
  obtain ⟨ht, -, hkeeps, -⟩ :=
    (completeSupertypes_ends hs hkind hnew (hv.trans hu) hbase' hkinds hnobase).of_ok hrun
  -- no instantiation is left, so none has been there
  have hnil : (u.setSupertypes s.size base interfaces.eraseDups).instantiationsOf s.size = [] := by
    rw [instantiationsOf_setSupertypes]
    exact hkeeps.instantiationsOf_eq_nil hu.consistent.wellFormed ht.wellFormed hnone
  rw [Build.modify_bind, Build.get_bind, hnil, ScanOrder.arrange_nil] at hrun
  unfold resolveSupertypes
  refine bind_eq_ok_iff.mpr ⟨base, v, hfirst, bind_eq_ok_iff.mpr ⟨interfaces, u, hsecond, ?_⟩⟩
  rw [Build.modify_bind, Build.get_bind, hnil, ScanOrder.arrange_nil]
  exact hrun

theorem unchangedButNames_of_meet {names : List String} {result : Unit}
    (hrun : Build.meet names s = (.ok result, t)) : s.UnchangedButNames t := by
  cases hrun
  exact s.unchangedButNames_addAll names

/-- So does a declaration that leaves no instantiation of its type. -/
theorem declare_anyOrder (hs : s.Coherent) (hrun : declare d order s = (.ok type, t))
    (hnone : t.instantiationsOf type = []) (other : ScanOrder) :
    declare d other s = (.ok type, t) := by
  unfold declare at hrun ⊢
  cases hfault : d.fault? with
  | some fault =>
    rw [hfault] at hrun
    cases hrun
  | none =>
    rw [hfault] at hrun
    obtain ⟨hkind, hbase⟩ := kind_of_fault?_eq_none hfault
    obtain ⟨_, v, hmeet, hrun⟩ := bind_eq_ok_iff.mp hrun
    refine bind_eq_ok_iff.mpr ⟨_, v, hmeet, ?_⟩
    rw [Build.get_bind] at hrun ⊢
    split at hrun
    · cases hrun
    next hfree =>
    rw [if_neg hfree]
    obtain ⟨_, u, hmeet', hrun⟩ := bind_eq_ok_iff.mp hrun
    refine bind_eq_ok_iff.mpr ⟨_, u, hmeet', Build.atomic_eq_ok.mpr ?_⟩
    have hintroduce := Build.atomic_eq_ok.mp hrun
    rw [Build.get_bind, Build.set_bind] at hintroduce ⊢
    obtain ⟨_, w, hsupers, hanswer⟩ := bind_eq_ok_iff.mp hintroduce
    cases hanswer
    -- the type is entered into the store that the names have been met in
    have hv := unchangedButNames_of_meet hmeet
    have hu := unchangedButNames_of_meet hmeet'
    have hsame := resolveSupertypes_anyOrder ((hs.unchangedButNames hv).unchangedButNames hu) hkind
      (hu.qualifiedNames_eq_none hfree) hbase hsupers hnone other
    exact bind_eq_ok_iff.mpr ⟨_, t, hsame, rfl⟩

/-! ## The core library -/

/-- Declares a type, and fails if it has instantiations after that. -/
def declareAlone (d : Declaration) : Build TypeId := do
  let type ← declare d
  if ((← get).instantiationsOf type).isEmpty then pure type
  else throw (.duplicateType d.qualifiedName)

/-- If the first operation succeeds in a coherent store, the other one does the same, and leaves a
coherent store. -/
def Foretells {α : Type} (first other : Build α) : Prop :=
  ∀ s, s.Coherent → ∀ a t, first s = (.ok a, t) → other s = (.ok a, t) ∧ t.Coherent

theorem foretells_declareAlone (d : Declaration) (order : ScanOrder) :
    Foretells (declareAlone d) (declare d order) := by
  intro s hs type t hrun
  obtain ⟨type', t', hdeclare, hrun⟩ := bind_eq_ok_iff.mp hrun
  rw [Build.get_bind] at hrun
  split at hrun
  · next hnone =>
    cases hrun
    have ht := ((declare_ends hs).of_ok hdeclare).1
    exact ⟨declare_anyOrder hs hdeclare (List.isEmpty_iff.mp hnone) order, ht⟩
  · cases hrun

namespace Foretells

variable {α β : Type}

/-- An operation that leaves coherent stores foretells itself. -/
theorem of_ends {operation : Build α}
    (h : ∀ s, s.Coherent → operation.Ends s (fun _ t => t.Coherent) fun _ => True) :
    Foretells operation operation := fun s hs _ _ hrun => ⟨hrun, (h s hs).of_ok hrun⟩

theorem bind {first other : Build α} {next next' : α → Build β} (h : Foretells first other)
    (hnext : ∀ a, Foretells (next a) (next' a)) : Foretells (first >>= next) (other >>= next') := by
  intro s hs b u hrun
  obtain ⟨a, t, hfirst, hrest⟩ := bind_eq_ok_iff.mp hrun
  obtain ⟨hother, ht⟩ := h s hs a t hfirst
  obtain ⟨hrest', hu⟩ := hnext a t ht b u hrest
  exact ⟨bind_eq_ok_iff.mpr ⟨a, t, hother, hrest'⟩, hu⟩

end Foretells

/-- If the core library can be declared without instantiations of any type that is just declared,
it is declared in the same way in any order. -/
theorem foretells_install (order : ScanOrder) :
    Foretells (CoreLibrary.installBy declareAlone) (CoreLibrary.install order) :=
  installBy_related Foretells _ _ (fun _ => .of_ends fun _ hs => Build.ends_pure hs) .bind
    (foretells_declareAlone · order)
    (fun keyword _ => .of_ends fun _ hs =>
      (addAlias_ends hs keyword).mono (fun _ _ ht => ht.1) fun _ _ => trivial)
    fun role _ => .of_ends fun _ hs =>
      (giveRole_ends hs role).mono (fun _ _ ht => ht.1) fun _ _ => trivial

/-- It can be. -/
theorem installBy_declareAlone : (CoreLibrary.installBy declareAlone empty).1 = .ok () := by
  decide +kernel

/-- The core library is the same in any order. -/
theorem core_eq (order : ScanOrder) : core order = core := by
  have hok := installBy_declareAlone
  rcases hrun : CoreLibrary.installBy declareAlone empty with ⟨result, t⟩
  rw [hrun] at hok
  cases hok
  have hcore : ∀ other, core other = t := fun other => by
    have hinstall := (foretells_install other empty coherent_empty () t hrun).1
    rw [core, Build.after, ExceptT.run, hinstall]
  rw [hcore order, hcore]

end NominalTypes.Store
