import NominalTypes.CoreLibrary
import NominalTypes.Proofs.Building.Declaration

/-!
# Reachable stores

A store is reachable if it comes from a store without types, or from the core library, by operations
that succeed or fail in any order. What a failed operation leaves is reachable too.

- `Operation`, `Operation.perform`: the operations that may change a store.
- `Store.Reachable`, `Store.Reachable.coherent`: reachable stores are coherent.
- `Operation.perform_ends_of_isAtomic`: what an operation leaves that is done as a whole. Reading a
  type expression is not: if it fails, it keeps the instantiations that it has built.
- `Store.afterAll`: runs of operations. They keep all that a type is known by
  (`Store.Reachable.keepsTypes_afterAll`), apart from its roles.
- `Store.Reachable.exists_run`: every reachable store comes from the empty one by a run. So does the
  core library (`Store.IsRun.install`).
-/

namespace NominalTypes

open Build (Ends ends_pure)

/-- The operations that may change a store. Every declaration has an order of its own in which it
goes through the instantiations of the new type. -/
inductive Operation where
  | declare (declaration : Declaration) (order : ScanOrder := .oldestFirst)
  | instantiate (definition : TypeId) (args : List TypeId)
  | nullableForm (type : TypeId)
  | freeParameter (name : String)
  | resolve (expr : TypeExpr)
  | readType (text : String)
  | readPattern (text : String) (vars : List String)
  | addAlias (keyword : String) (type : TypeId)
  | giveRole (role : Role) (type : TypeId)
  /-- Only the name is entered. -/
  | meet (name : String)

namespace Operation

/-- The operation without its answer. -/
def perform : Operation → Build Unit
  | .declare declaration order => do
    let _ ← Store.declare declaration order
  | .instantiate definition args => do
    let _ ← Store.instantiate definition args
  | .nullableForm type => do
    let _ ← Store.nullableForm type
  | .freeParameter name => do
    let _ ← Store.freeParameter name
  | .resolve expr => do
    let _ ← Store.resolve expr
  | .readType text => do
    let _ ← Store.readType text
  | .readPattern text vars => do
    let _ ← Store.readPattern text vars
  | .addAlias keyword type => Store.addAlias keyword type
  | .giveRole role type => Store.giveRole role type
  | .meet name => Build.meet [name]

/-- The operation is done as a whole or not at all. Those that read type expressions are not. -/
def isAtomic : Operation → Bool
  | .resolve _ | .readType _ | .readPattern _ _ => false
  | _ => true

/-- The operation gives a type a role. -/
def givesRole : Operation → Bool
  | .giveRole _ _ => true
  | _ => false

end Operation

namespace Store

/-- A store that operations lead to. -/
inductive Reachable : Store → Prop
  | empty : Reachable .empty
  | core (order : ScanOrder) : Reachable (.core order)
  | step {s : Store} (operation : Operation) : Reachable s → Reachable (operation.perform.after s)

/-- The empty store is coherent, for there is nothing in it. -/
theorem coherent_empty : empty.Coherent := by
  have hnone : ∀ type, empty.get? type = none := fun type => by
    rw [get?, empty]
    exact Array.getElem?_empty
  have hclosed : empty.Closed := by
    constructor <;> intro key type hkey <;> unfold empty at hkey <;> simp at hkey
  have hroles : empty.RolesFit := by
    constructor <;> intro type htype <;> cases htype
  have hnames : empty.NamesFit := by
    refine ⟨fun type keyword hkeyword => ?_, fun type d hd => ?_⟩
    · unfold empty at hkeyword
      simp at hkeyword
    · rw [outline?, hnone] at hd
      cases hd
  refine ⟨⟨hclosed, ?_, ?_, ?_, hroles, hnames⟩, ?_⟩
  · intro type d hd
    rw [hnone] at hd
    cases hd
  · intro generic args type htype
    unfold empty at htype
    simp at htype
  · intro name type htype
    unfold empty at htype
    simp at htype
  · intro type htype
    exact absurd htype (Nat.not_lt_zero type)

end Store

/-! ## Operations -/

namespace Operation

open Store

variable {s t : Store}

/-- What every operation leaves of the store before it, whether it succeeds or fails. Only roles may
move from one type to another. -/
structure Leaves (operation : Operation) (s t : Store) : Prop where
  coherent : t.Coherent
  keepsOutlines : s.KeepsOutlines t
  keepsTypes : operation.givesRole = false → s.KeepsTypes t

theorem Leaves.of_grows {operation : Operation} (ht : t.Coherent) (h : s.Grows t) :
    operation.Leaves s t := ⟨ht, h.keepsOutlines, fun _ => h.keepsTypes⟩

theorem Leaves.of_unchangedButNames {operation : Operation} (hs : s.Coherent)
    (h : s.UnchangedButNames t) : operation.Leaves s t :=
  ⟨hs.unchangedButNames h, h.keepsOutlines, fun _ => h.keepsTypes⟩

/-- An operation that is done as a whole leaves the store unchanged if it fails. -/
theorem perform_ends_of_isAtomic (hs : s.Coherent) (operation : Operation)
    (hatomic : operation.isAtomic = true) :
    operation.perform.Ends s (fun _ t => operation.Leaves s t) fun t => s.UnchangedButNames t := by
  cases operation with
  | declare declaration order =>
    refine Ends.bind ((declare_ends hs).mono ?_ fun _ => id)
    exact fun _ t ht => ends_pure (.of_grows ht.1 ht.2)
  | instantiate definition args =>
    refine Ends.bind ((instantiate_ends hs).mono ?_ fun _ => id)
    exact fun _ t ht => ends_pure (.of_grows ht.consistent ht.builds.grows)
  | nullableForm type =>
    refine Ends.bind ((nullableForm_ends hs).mono ?_ fun _ => id)
    rintro result t ⟨nullable, -, ht⟩
    exact ends_pure (.of_grows ht.consistent ht.builds.grows)
  | freeParameter name =>
    refine Ends.bind ((freeParameter_ends hs name).mono ?_ fun _ => False.elim)
    exact fun _ t ht => ends_pure (.of_grows ht.1 ht.2.1)
  | addAlias keyword type =>
    refine (addAlias_ends hs keyword).mono ?_ fun _ => id
    exact fun _ t ht => ⟨ht.1, ht.2.1, fun _ => ht.2.2⟩
  | giveRole role type =>
    exact (giveRole_ends hs role).mono (fun _ t ht => ⟨ht.1, ht.2, nofun⟩) fun _ => id
  | meet name => exact meet_ends s [name] fun t hst => .of_unchangedButNames hs hst
  | resolve | readType | readPattern => cases hatomic

/-- Every operation leaves a coherent store with the old types, whether it fails or not. -/
theorem perform_ends (hs : s.Coherent) (operation : Operation) :
    operation.perform.Ends s (fun _ t => operation.Leaves s t) fun t => operation.Leaves s t := by
  have hnil : ∀ entry ∈ ([] : Scope), entry.2 < s.size := fun _ hentry =>
    (List.not_mem_nil hentry).elim
  cases hatomic : operation.isAtomic with
  | true =>
    exact (perform_ends_of_isAtomic hs operation hatomic).mono (fun _ _ => id) fun t ht =>
      .of_unchangedButNames hs ht
  | false =>
    cases operation with
    | resolve expr =>
      refine Ends.bind ((resolveIn_ends expr hs hnil).mono ?_ ?_)
      · exact fun _ t ht => ends_pure (.of_grows ht.1.consistent ht.1.builds.grows)
      · exact fun t ht => .of_grows ht.consistent ht.builds.grows
    | readType text =>
      refine Ends.bind ((readTypeIn_ends hs hnil text).mono ?_ ?_)
      · exact fun _ t ht => ends_pure (.of_grows ht.1.consistent ht.1.builds.grows)
      · exact fun t ht => .of_grows ht.consistent ht.builds.grows
    | readPattern text vars =>
      refine Ends.bind ((readPattern_ends hs text vars).mono ?_ ?_)
      · exact fun _ t ht => ends_pure (.of_grows ht.1 ht.2.1)
      · exact fun t ht => .of_grows ht.1 ht.2
    | declare | instantiate | nullableForm | freeParameter | addAlias | giveRole | meet =>
      cases hatomic

theorem leaves_after (hs : s.Coherent) (operation : Operation) :
    operation.Leaves s (operation.perform.after s) :=
  (operation.perform_ends hs).store (fun _ _ => id) fun _ => id

end Operation

/-! ## Runs -/

namespace Store

variable {s : Store}

/-- The store after some operations, each of which may succeed or fail. -/
def afterAll (s : Store) (operations : List Operation) : Store :=
  operations.foldl (fun s operation => operation.perform.after s) s

theorem afterAll_append (s : Store) (first others : List Operation) :
    s.afterAll (first ++ others) = (s.afterAll first).afterAll others :=
  List.foldl_append

theorem Consistent.afterAll (hs : s.Coherent) (operations : List Operation) :
    (s.afterAll operations).Coherent := by
  induction operations generalizing s with
  | nil => exact hs
  | cons operation operations ih => exact ih (operation.leaves_after hs).coherent

/-- What is done is what some operations do one after the other. -/
def IsRun {α : Type} (build : Build α) : Prop :=
  ∀ s : Store, ∃ operations, build.after s = s.afterAll operations

namespace IsRun

variable {α β : Type}

theorem pure (a : α) : IsRun (pure a : Build α) := fun _ => ⟨[], rfl⟩

theorem perform (operation : Operation) : IsRun operation.perform := fun _ => ⟨[operation], rfl⟩

theorem declare (d : Declaration) (order : ScanOrder) : IsRun (declare d order) := fun s =>
  ⟨[.declare d order], (Build.after_dropped (Store.declare d order) s).symm⟩

/-- If the first part fails, nothing follows it. -/
theorem bind {build : Build α} {next : α → Build β} (h : IsRun build)
    (hnext : ∀ a, IsRun (next a)) : IsRun (build >>= next) := by
  intro s
  obtain ⟨first, hfirst⟩ := h s
  have hafter : (build >>= next).after s = ((build >>= next) s).2 := rfl
  have hbuild : (build s).2 = s.afterAll first := hfirst
  rw [hafter, Build.bind_apply]
  rcases hrun : build s with ⟨error | a, t⟩
  · rw [hrun] at hbuild
    exact ⟨first, hbuild⟩
  · rw [hrun] at hbuild
    obtain ⟨others, hothers⟩ := hnext a t
    refine ⟨first ++ others, ?_⟩
    rw [afterAll_append, ← hbuild]
    exact hothers

end IsRun

/-- What relates the parts of two installations of the core library, and sequences whose parts it
relates, relates the installations. -/
theorem installBy_related (related : ∀ {α : Type}, Build α → Build α → Prop)
    (declare declare' : Declaration → Build TypeId)
    (hpure : ∀ {α : Type} (a : α), related (pure a) (pure a))
    (hbind : ∀ {α β : Type} {first first' : Build α} {next next' : α → Build β},
      related first first' → (∀ a, related (next a) (next' a)) →
      related (first >>= next) (first' >>= next'))
    (hdeclare : ∀ d, related (declare d) (declare' d))
    (haddAlias : ∀ keyword type, related (addAlias keyword type) (addAlias keyword type))
    (hgiveRole : ∀ role type, related (giveRole role type) (giveRole role type)) :
    related (CoreLibrary.installBy declare) (CoreLibrary.installBy declare') := by
  have hforM : ∀ {α : Type} {f f' : α → Build PUnit}, (∀ a, related (f a) (f' a)) →
      ∀ as : List α, related (as.forM f) (as.forM f') := by
    intro α f f' h as
    induction as with
    | nil => exact hpure PUnit.unit
    | cons a as ih => exact hbind (h a) fun _ => ih
  have hdeclareAs : ∀ keyword d, related (CoreLibrary.declareAs declare keyword d)
      (CoreLibrary.declareAs declare' keyword d) := fun keyword d =>
    hbind (hdeclare d) fun type => haddAlias keyword type
  have hdeclareAll : ∀ declarations, related (CoreLibrary.declareAll declare declarations)
      (CoreLibrary.declareAll declare' declarations) := fun declarations =>
    hforM (fun d => hbind (hdeclare d) fun _ => hpure PUnit.unit) declarations
  unfold CoreLibrary.installBy
  refine hbind (hdeclare CoreLibrary.object) fun root => ?_
  refine hbind (hgiveRole .root root) fun _ => ?_
  refine hbind (haddAlias "object" root) fun _ => ?_
  refine hbind (hdeclare CoreLibrary.valueType) fun base => ?_
  refine hbind (hgiveRole .valueTypeRoot base) fun _ => ?_
  refine hbind (hdeclareAll CoreLibrary.contracts) fun _ => ?_
  refine hbind (hdeclare CoreLibrary.nullable) fun wrapper => ?_
  refine hbind (hgiveRole .nullable wrapper) fun _ => ?_
  refine hbind (hforM (fun ⟨name, keyword⟩ => hdeclareAs keyword (CoreLibrary.primitive name))
    CoreLibrary.primitives) fun _ => ?_
  exact hbind (hdeclareAs "string" CoreLibrary.string) fun _ => hdeclareAll CoreLibrary.components

/-- The core library is declared by operations. -/
theorem IsRun.install (order : ScanOrder) : IsRun (CoreLibrary.install order) :=
  installBy_related (fun build _ => IsRun build) _ (Store.declare · order) .pure .bind
    (.declare · order) (fun keyword type => .perform (.addAlias keyword type))
    fun role type => .perform (.giveRole role type)

/-- The core library is coherent. -/
theorem coherent_core (order : ScanOrder) : (core order).Coherent := by
  obtain ⟨operations, hcore⟩ := IsRun.install order empty
  exact (show core order = _ from hcore) ▸ coherent_empty.afterAll operations

/-- Reachable stores are coherent. -/
theorem Reachable.coherent (h : s.Reachable) : s.Coherent := by
  induction h with
  | empty => exact coherent_empty
  | core order => exact coherent_core order
  | step operation _ ih => exact (operation.leaves_after ih).coherent

/-- Every reachable store comes from the empty store by operations, the core library included. -/
theorem Reachable.exists_run (h : s.Reachable) :
    ∃ operations, s = Store.empty.afterAll operations := by
  induction h with
  | empty => exact ⟨[], rfl⟩
  | core order => exact IsRun.install order .empty
  | step operation _ ih =>
    obtain ⟨operations, rfl⟩ := ih
    exact ⟨operations ++ [operation], by rw [afterAll_append]; rfl⟩

theorem Reachable.afterAll (hs : s.Reachable) (operations : List Operation) :
    (s.afterAll operations).Reachable := by
  induction operations generalizing s with
  | nil => exact hs
  | cons operation operations ih => exact ih (.step operation hs)

/-- A run keeps the outlines of the types that were known before it. -/
theorem Reachable.keepsOutlines_afterAll (hs : s.Reachable) (operations : List Operation) :
    s.KeepsOutlines (s.afterAll operations) := by
  induction operations generalizing s with
  | nil => exact .refl s
  | cons operation operations ih =>
    exact (operation.leaves_after hs.coherent).keepsOutlines.trans (ih (.step operation hs))

/-- A run without changes of roles keeps the types that were known before it. -/
theorem Reachable.keepsTypes_afterAll (hs : s.Reachable) {operations : List Operation}
    (hroles : ∀ operation ∈ operations, operation.givesRole = false) :
    s.KeepsTypes (s.afterAll operations) := by
  induction operations generalizing s with
  | nil => exact .refl s
  | cons operation operations ih =>
    obtain ⟨hfirst, hrest⟩ := List.forall_mem_cons.mp hroles
    exact ((operation.leaves_after hs.coherent).keepsTypes hfirst).trans
      (ih (.step operation hs) hrest)

end Store

end NominalTypes
