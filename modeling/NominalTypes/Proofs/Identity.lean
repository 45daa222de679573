import NominalTypes.Proofs.Atomicity
import NominalTypes.Proofs.Coherence

/-!
# Types are the same exactly if their handles are

A definition and arguments have one type at most. It is the definition itself for its own
parameters, and otherwise the one that is registered for them. Applying the definition again finds
it, no matter what has been done in the meantime.

- `Store.BuiltFrom`: the type is the definition applied to the arguments.
- `Store.Interned`: there is one such type at most, and the table of instantiations has it.
- `Store.WellFormed.instantiate_of_builtFrom`: applying a definition finds a type that is there.
- `Store.Reachable.interned_and_found_again`: the main result.
-/

namespace NominalTypes

open Build (Ends ends_pure ends_get)

/-- An operation that cannot but give some answer and leave the store as it is. -/
theorem Build.eq_of_ends {α : Type} {operation : Build α} {s : Store} {a : α}
    (h : operation.Ends s (fun b t => b = a ∧ t = s) fun _ => False) :
    operation s = (.ok a, s) := by
  unfold Ends at h
  split at h
  · next b t hrun => rw [hrun, h.1, h.2]
  · exact h.elim

namespace Store

variable {s t : Store} {type other definition : TypeId} {args : List TypeId}

/-- The type is the definition applied to the arguments. -/
def BuiltFrom (s : Store) (type definition : TypeId) (args : List TypeId) : Prop :=
  ∃ d, s.get? type = some d ∧ s.definitionOf? type = some definition ∧ d.arguments = args

/-- A type built from a definition is the definition itself, with its own parameters, or one of its
instantiations. -/
theorem builtFrom_iff : s.BuiltFrom type definition args ↔
    (type = definition ∧ s.origin? type = some (.definition args)) ∨
      ∃ isOpen, s.origin? type = some (.instantiation definition args isOpen) := by
  constructor
  · rintro ⟨d, hd, hdefinition, rfl⟩
    have ho := origin?_of_get? hd
    rw [definitionOf?_eq_origin?, ho] at hdefinition
    unfold Descriptor.arguments
    split at hdefinition
    · next params horigin =>
      cases hdefinition
      rw [ho, horigin, Option.some.inj horigin]
      exact .inl ⟨rfl, rfl⟩
    · next generic inner isOpen horigin =>
      cases hdefinition
      rw [ho, horigin, Option.some.inj horigin]
      exact .inr ⟨isOpen, rfl⟩
    · cases hdefinition
  · rintro (⟨rfl, ho⟩ | ⟨isOpen, ho⟩)
    all_goals
      obtain ⟨d, hd, horigin⟩ := Option.map_eq_some_iff.mp ho
      exact ⟨d, hd, by rw [definitionOf?_eq_origin?, ho], by rw [Descriptor.arguments, horigin]⟩

theorem KeepsOutlines.builtFrom (h : s.KeepsOutlines t) (htype : s.BuiltFrom type definition args) :
    t.BuiltFrom type definition args := by
  rw [builtFrom_iff] at htype ⊢
  obtain ⟨heq, ho⟩ | ⟨isOpen, ho⟩ := htype
  · exact .inl ⟨heq, h.origin?_some ho⟩
  · exact .inr ⟨isOpen, h.origin?_some ho⟩

/-! ## One type for a definition and arguments -/

/-- Generic types are told apart by their definitions and arguments, and the table of instantiations
has every type that is built from a definition, apart from the definition itself. -/
structure Interned (s : Store) : Prop where
  unique : ∀ {type other definition : TypeId} {args : List TypeId},
    s.BuiltFrom type definition args → s.BuiltFrom other definition args → type = other
  registered_iff : ∀ {type definition : TypeId} {args : List TypeId},
    s.instantiations[(definition, args)]? = some type ↔
      s.BuiltFrom type definition args ∧ type ≠ definition
  own_parameters : ∀ {definition : TypeId} {params : List TypeId},
    s.origin? definition = some (.definition params) →
      s.instantiations[(definition, params)]? = none

namespace WellFormed

theorem eq_of_builtFrom (hs : s.WellFormed) (h : s.BuiltFrom type definition args)
    (h' : s.BuiltFrom other definition args) : type = other := by
  obtain ⟨d, hd, hdefinition, rfl⟩ := h
  obtain ⟨e, he, hother, hargs⟩ := h'
  refine hs.tree_injective (lt_of_get? hd) (lt_of_get? he) ?_
  rw [hs.tree_generic hd hdefinition, hs.tree_generic he hother, hargs]

theorem registered_iff (hs : s.WellFormed) : s.instantiations[(definition, args)]? = some type ↔
    s.BuiltFrom type definition args ∧ type ≠ definition := by
  constructor
  · intro hregistered
    obtain ⟨isOpen, ho⟩ := hs.registered definition args type hregistered
    obtain ⟨_, -, hsound⟩ := hs.instantiation ho
    exact ⟨builtFrom_iff.mpr (.inr ⟨isOpen, ho⟩), (Nat.ne_of_lt hsound.generic_lt).symm⟩
  · rintro ⟨hbuilt, hne⟩
    obtain ⟨heq, -⟩ | ⟨isOpen, ho⟩ := builtFrom_iff.mp hbuilt
    · exact absurd heq hne
    · obtain ⟨_, -, hsound⟩ := hs.instantiation ho
      exact hsound.registered

theorem interned (hs : s.WellFormed) : s.Interned where
  unique := hs.eq_of_builtFrom
  registered_iff := hs.registered_iff
  own_parameters {definition params} ho := by
    rw [Option.eq_none_iff_forall_ne_some]
    intro type hregistered
    obtain ⟨hbuilt, hne⟩ := hs.registered_iff.mp hregistered
    exact hne (hs.eq_of_builtFrom hbuilt (builtFrom_iff.mpr (.inl ⟨rfl, ho⟩)))

/-! ## Applying a definition -/

/-- Types that read as the same trees are the same, if some are known; an unknown one would read as
a leaf of its own. -/
theorem eq_of_map_tree_eq (hs : s.WellFormed) {types : List TypeId} (h : ∀ x ∈ types, x < s.size)
    (htrees : types.map s.tree = args.map s.tree) : types = args := by
  refine eq_of_map_eq (fun x hx arg _ htree => ?_) htrees
  by_cases hknown : arg < s.size
  · exact hs.tree_injective (h x hx) hknown htree
  · have hleaf : s.tree arg = .leaf arg :=
      tree_leaf (by rw [definitionOf?_eq_origin?, origin?, get?_eq_none hknown]; rfl)
    exact eq_of_tree_eq_leaf (htree.trans hleaf)

/-- A type that reads as an application is built from what is applied. -/
theorem builtFrom_of_tree_eq (hs : s.WellFormed) (htype : type < s.size)
    (htree : s.tree type = .node definition (args.map s.tree)) :
    s.BuiltFrom type definition args := by
  obtain ⟨d, hd, hdefinition, htrees⟩ := hs.of_tree_eq_node htype htree
  exact ⟨d, hd, hdefinition, hs.eq_of_map_tree_eq (hs.arguments_lt hd) htrees⟩

/-- The type that is given for a definition and arguments is built from them. -/
theorem builtFrom_of_instantiate (hs : s.Coherent)
    (hrun : instantiate definition args s = (.ok type, t)) : t.BuiltFrom type definition args := by
  have hreaches := (instantiate_ends hs).of_ok hrun
  exact hreaches.consistent.wellFormed.builtFrom_of_tree_eq hreaches.known hreaches.tree_eq

/-- Known arguments can be described, which changes nothing. -/
theorem ends_describe_of_lt (h : ∀ arg ∈ args, arg < s.size) :
    (args.mapM fun arg => Build.ask (·.descriptor arg)).Ends s (fun _ t => t = s)
      fun _ => False := by
  have hrun : (args.mapM fun arg => Build.ask (·.descriptor arg)).Ends s
      (fun described t => t = s ∧ t = s ∧ List.Forall₂ (fun _ _ => True) args described)
      fun _ => False := by
    refine Build.ends_mapM (fun _ t => t = s) (fun t ht => ht) (fun _ h => h)
      (fun _ _ _ _ _ _ h => h) rfl ?_
    rintro arg harg t rfl -
    obtain ⟨d, hd⟩ := exists_get? (h arg harg)
    exact ends_descriptor_of_get? hd ⟨rfl, rfl, trivial⟩
  exact hrun.mono (fun _ _ ht => ht.1) fun _ => id

/-- Applying a definition to arguments finds the type that is built from them. -/
theorem instantiateWithin_of_builtFrom (hs : s.WellFormed) (h : s.BuiltFrom type definition args)
    (levels : Nat) : (instantiateWithin (levels + 1) definition args).Ends s
      (fun result t => result = type ∧ t = s) fun _ => False := by
  rw [instantiateWithin]
  obtain ⟨rfl, ho⟩ | ⟨isOpen, ho⟩ := builtFrom_iff.mp h
  · obtain ⟨d, hd, horigin, -⟩ := hs.sound_of_origin? ho
    refine Ends.bind (ends_descriptor_of_get? hd ?_)
    rw [horigin]
    dsimp only
    rw [if_neg (fun hne => hne rfl), if_pos rfl]
    exact ends_pure ⟨rfl, rfl⟩
  · obtain ⟨_, -, hsound⟩ := hs.instantiation ho
    obtain ⟨params, hparams, hlength, hne⟩ := hsound.parameters
    obtain ⟨g, hg, horigin, -⟩ := hs.sound_of_origin? hparams
    refine Ends.bind (ends_descriptor_of_get? hg ?_)
    rw [horigin]
    dsimp only
    rw [if_neg (not_not_intro hlength), if_neg hne]
    have hargs : ∀ arg ∈ args, arg < s.size := fun arg harg => (hs.args_known ho harg).2
    refine Ends.bind ((ends_describe_of_lt hargs).mono ?_ fun _ => id)
    rintro described t rfl
    refine Ends.bind (ends_get ?_)
    rw [hsound.registered]
    exact ends_pure ⟨rfl, rfl⟩

theorem instantiate_of_builtFrom (hs : s.WellFormed) (h : s.BuiltFrom type definition args) :
    instantiate definition args s = (.ok type, s) := by
  have hrun := Build.eq_of_ends (hs.instantiateWithin_of_builtFrom h maxInstantiationDepth)
  simp only [instantiate, Build.atomic, ExceptT.run, hrun]

end WellFormed

/-! ## Reachable stores -/

/-- The store that an operation leaves is reachable. -/
theorem Reachable.of_instantiate (hs : s.Reachable)
    (hrun : instantiate definition args s = (.ok type, t)) : t.Reachable := by
  have hafter : (Operation.instantiate definition args).perform.after s = t := by
    rw [Operation.perform, Build.after_dropped, Build.after, ExceptT.run, hrun]
  exact hafter ▸ hs.step (.instantiate definition args)

/-- In a reachable store, a definition and arguments have one type at most. The one that is given
for them is built from them, is the definition itself exactly if the arguments are its own
parameters, and is given for them again after any other operations, without any change to the
store. -/
theorem Reachable.interned_and_found_again (hs : s.Reachable) :
    s.Interned ∧ ∀ (definition : TypeId) (args : List TypeId) (type : TypeId) (t : Store),
      instantiate definition args s = (.ok type, t) →
        t.BuiltFrom type definition args ∧
        (type = definition ↔ t.origin? definition = some (.definition args)) ∧
        ∀ operations : List Operation,
          instantiate definition args (t.afterAll operations) =
            (.ok type, t.afterAll operations) := by
  refine ⟨hs.coherent.wellFormed.interned, fun definition args type t hrun => ?_⟩
  have ht := hs.of_instantiate hrun
  have hbuilt := WellFormed.builtFrom_of_instantiate hs.coherent hrun
  refine ⟨hbuilt, ?_, fun operations => ?_⟩
  · constructor
    · rintro rfl
      obtain ⟨-, ho⟩ | ⟨isOpen, ho⟩ := builtFrom_iff.mp hbuilt
      · exact ho
      · obtain ⟨_, -, hsound⟩ := ht.coherent.wellFormed.instantiation ho
        exact absurd hsound.generic_lt (Nat.lt_irrefl type)
    · intro ho
      exact ht.coherent.wellFormed.eq_of_builtFrom hbuilt (builtFrom_iff.mpr (.inl ⟨rfl, ho⟩))
  · have hlater := (ht.keepsOutlines_afterAll operations).builtFrom hbuilt
    exact (ht.afterAll operations).coherent.wellFormed.instantiate_of_builtFrom hlater

/-- The store in which `Node<Eq<A>>` has been built. -/
def withNode : Store := (instantiate 3 [8]).after selfReferring

/-- The type is found again after a failed declaration and a change of roles. -/
theorem found_again_withNode :
    (instantiate 3 [8] selfReferring).1 = .ok 9 ∧
      instantiate 3 [8] (withNode.afterAll [.declare unfinished, .giveRole .root 2]) =
        (.ok 9, withNode.afterAll [.declare unfinished, .giveRole .root 2]) := by
  have hrun : instantiate 3 [8] selfReferring = (.ok 9, withNode) :=
    Prod.ext (by decide +kernel) rfl
  refine ⟨congrArg Prod.fst hrun, ?_⟩
  exact (reachable_selfReferring.interned_and_found_again.2 3 [8] 9 withNode hrun).2.2 _

end Store

end NominalTypes
