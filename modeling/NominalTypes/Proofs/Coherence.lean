import NominalTypes.Proofs.Building.Reachable

/-!
# Supertypes of instantiations

In a reachable store every instantiation has the supertypes of its definition with the parameters
replaced by the arguments, all at the same time. This holds of those too that came up while the
supertypes of their definition were being resolved.

Replacement is said of trees, where a definition stands for itself applied to its own parameters.
Since a store has one type for a tree at most, it determines the supertypes themselves.

- `Store.ReplacedBy`: a type comes from another one by replacement.
- `Store.WellFormed.assignment_parameter`: each parameter is replaced by the argument at its
  position.
- `Store.Reachable.supertypes_of_instantiation`: the main result.
-/

namespace NominalTypes.Store

variable {s : Store} {type definition : TypeId} {params args : List TypeId} {d : Descriptor}

/-- The second type is the one that reads as the first one with the parameters replaced by the
arguments. -/
def ReplacedBy (s : Store) (params args : List TypeId) (type result : TypeId) : Prop :=
  result < s.size ∧ ∀ other, other < s.size →
    (s.tree other = (s.tree type).subst (s.assignment params args) ↔ other = result)

/-- One type with the right tree is the only one. -/
theorem WellFormed.replacedBy (hs : s.WellFormed) {result : TypeId} (hresult : result < s.size)
    (h : s.tree result = s.image params args type) : s.ReplacedBy params args type result := by
  refine ⟨hresult, fun other hother => ⟨fun heq => ?_, fun heq => ?_⟩⟩
  · exact hs.tree_injective hother hresult (heq.trans h.symm)
  · rw [heq]
    exact h

/-- A parameter of a definition is assigned the argument at its position. -/
theorem WellFormed.assigned?_parameter (hs : s.WellFormed)
    (ho : s.origin? definition = some (.definition params)) {position param arg : Nat}
    (hparam : params[position]? = some param) (harg : args[position]? = some arg) :
    assigned? params args param = some arg := by
  obtain ⟨-, hplaces⟩ := hs.definition ho
  have hentry : (params.zip args)[position]? = some (param, arg) :=
    List.getElem?_zip_eq_some.mpr ⟨hparam, harg⟩
  obtain ⟨hposition, hget⟩ := List.getElem?_eq_some_iff.mp hentry
  refine List.lookup_eq_some_iff.mpr
    ⟨(params.zip args).take position, (params.zip args).drop (position + 1), ?_, ?_⟩
  · rw [← hget, List.getElem_cons_drop, List.take_append_drop]
  · rintro ⟨param', arg'⟩ hmem
    obtain ⟨earlier, hearlier, heq⟩ := List.mem_take_iff_getElem.mp hmem
    have hlt : earlier < position := Nat.lt_of_lt_of_le hearlier (Nat.min_le_left _ _)
    have hentry' : (params.zip args)[earlier]? = some (param', arg') :=
      List.getElem?_eq_some_iff.mpr ⟨_, heq⟩
    have hparam' := (List.getElem?_zip_eq_some.mp hentry').1
    have hplace := (hplaces position param hparam).1
    have hplace' := (hplaces earlier param' hparam').1
    rw [bne_iff_ne]
    show param ≠ param'
    lia

/-- A parameter of a definition is replaced by the argument at its position. -/
theorem WellFormed.assignment_parameter (hs : s.WellFormed)
    (ho : s.origin? definition = some (.definition params)) {position param arg : Nat}
    (hparam : params[position]? = some param) (harg : args[position]? = some arg) :
    s.assignment params args param = some (s.tree arg) := by
  rw [assignment, hs.assigned?_parameter ho hparam harg]
  rfl

/-- Entry by entry, types come from others by replacement if their trees do. -/
theorem WellFormed.forall₂_replacedBy (hs : s.WellFormed) {types results : List TypeId}
    (hresults : ∀ r ∈ results, r < s.size)
    (h : results.map s.tree = types.map (s.image params args)) :
    List.Forall₂ (s.ReplacedBy params args) types results := by
  have htrees : List.Forall₂ (fun x r => s.tree r = s.image params args x) types results := by
    rw [← List.forall₂_eq_eq_eq, List.forall₂_map_left_iff, List.forall₂_map_right_iff] at h
    exact h.flip
  refine List.forall₂_iff_zip.mpr ⟨htrees.length_eq, fun {x r} hmem => ?_⟩
  exact hs.replacedBy (hresults r (List.of_mem_zip hmem).2) (List.forall₂_zip htrees hmem)

/-- The supertypes of an instantiation are those of its definition, with the parameters replaced by
the arguments: a base type if the definition has one, and the interfaces position by position. -/
theorem Reachable.supertypes_of_instantiation {isOpen : Bool} (hs : s.Reachable)
    (hd : s.get? type = some d) (ho : d.origin = .instantiation definition args isOpen) :
    ∃ g params, s.get? definition = some g ∧ g.origin = .definition params ∧
      params.length = args.length ∧ Option.Rel (s.ReplacedBy params args) g.base d.base ∧
      List.Forall₂ (s.ReplacedBy params args) g.interfaces d.interfaces := by
  have hwf := hs.coherent.wellFormed
  have horigin : s.origin? type = some (.instantiation definition args isOpen) := by
    rw [origin?_of_get? hd, ho]
  obtain ⟨_, -, hsound⟩ := hwf.instantiation horigin
  obtain ⟨params, hparams, hlength, -⟩ := hsound.parameters
  obtain ⟨g, hg, hgo, -⟩ := hwf.sound_of_origin? hparams
  have hcoherent := hs.coherent.coherent type (lt_of_get? hd) id
  obtain ⟨hbase, hinterfaces⟩ := hcoherent d g definition args isOpen hd ho hg
  have hargs : g.arguments = params := by rw [Descriptor.arguments, hgo]
  rw [hargs] at hbase hinterfaces
  have hknown : ∀ x ∈ d.supertypes, x < s.size := fun x hx =>
    (hwf.sound type d hd).supertypes_lt hx
  refine ⟨g, params, hg, hgo, hlength, ?_, ?_⟩
  · cases hgb : g.base with
    | none =>
      rw [hgb] at hbase
      rw [Option.map_eq_none_iff.mp hbase]
      exact .none
    | some x =>
      rw [hgb] at hbase
      obtain ⟨b, hb, htree⟩ := Option.map_eq_some_iff.mp hbase
      rw [hb]
      exact .some (hwf.replacedBy
        (hknown b (Descriptor.mem_supertypes_of_base hb)) htree)
  · exact hwf.forall₂_replacedBy
      (fun i hi => hknown i (Descriptor.mem_supertypes_of_mem hi)) hinterfaces

/-- A store in which the declaration of `Node<T>` mentions `Node<A>` before `Node<T>` has any
supertypes. -/
def selfReferring : Store :=
  let eq : Declaration := { Declaration.plain .interface "Eq" with parameters := ["T"] }
  let node : Declaration :=
    { Declaration.plain .classType "Node" with
      parameters := ["T"], interfaces := ["Eq<T>", "Eq<Node<A>>"] }
  let declared := (Operation.declare eq).perform.after .empty
  let declared := (Operation.declare (.plain .classType "A")).perform.after declared
  (Operation.declare node).perform.after declared

theorem reachable_selfReferring : selfReferring.Reachable :=
  .step _ (.step _ (.step _ .empty))

/-- `Node<A>` has the interfaces `Eq<A>` and `Eq<Node<A>>`, as `Node<T>` has `Eq<T>` and
`Eq<Node<A>>`. -/
theorem supertypes_of_selfReferring :
    List.Forall₂ (selfReferring.ReplacedBy [4] [2]) [5, 7] [8, 7] := by
  have hd : selfReferring.get? 6 = some ⟨"Node", none, .classType, .none,
      .instantiation 3 [2] false, none, [8, 7]⟩ := by decide +kernel
  have hnode : selfReferring.get? 3 = some ⟨"Node", none, .classType, .none, .definition [4], none,
      [5, 7]⟩ := by decide +kernel
  obtain ⟨g, params, hg, ho, -, -, hinterfaces⟩ :=
    reachable_selfReferring.supertypes_of_instantiation hd rfl
  rw [hnode] at hg
  cases hg
  cases ho
  exact hinterfaces

end NominalTypes.Store
