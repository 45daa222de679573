import NominalTypes.Proofs.Building.Histories
import NominalTypes.Proofs.Hierarchy.Order

/-!
# Interfaces that are listed twice

A declaration may name an interface more than once, and only the first mention counts. An
instantiation takes the interfaces of its definition over, each with the parameters replaced, and
nobody looks whether two of them have become one. So it has an interface twice exactly if its
arguments make two interfaces of the definition equal.

- `Store.KeepsApart`: a replacement that makes no two types of a list equal.
- `Store.Reachable.nodup_interfaces_of_declared`: declared types have no interface twice.
- `Store.WellFormed.nodup_interfaces_iff`: which instantiations have none twice.
- `Store.Reachable.nodup_interfaces`: both in one.
- `Store.not_nodup_interfaces`: an instantiation that has an interface twice.
-/

namespace NominalTypes.Store

variable {s : Store} {type : TypeId} {params args types : List TypeId} {d g : Descriptor}

/-- Different types of the list stay different when the parameters are replaced by the arguments. -/
def KeepsApart (s : Store) (params args types : List TypeId) : Prop :=
  ∀ x ∈ types, ∀ y ∈ types, s.image params args x = s.image params args y → x = y

/-- Types repeat exactly where their trees do. -/
theorem WellFormed.nodup_map_tree_iff (hs : s.WellFormed) (htypes : ∀ x ∈ types, x < s.size) :
    (types.map s.tree).Nodup ↔ types.Nodup := by
  refine ⟨List.Nodup.of_map s.tree, fun hnodup => hnodup.map_on fun x hx y hy heq => ?_⟩
  exact hs.tree_injective (htypes x hx) (htypes y hy) heq

/-! ## Declared types -/

/-- The interfaces that a declaration has found are set without repetitions, and stay so. -/
theorem Reachable.nodup_interfaces_of_declared (hs : s.Reachable) (hd : s.get? type = some d)
    (hdeclared : d.origin.isDeclared = true) : d.interfaces.Nodup := by
  obtain ⟨declaration, t, r, order, operations, hr, hrun, rfl⟩ := hs.exists_hasDeclared hd hdeclared
  obtain ⟨rfl, met, base, interfaces, hintroduces⟩ := declare_introduces hr.coherent hrun
  have hown := hintroduces.own
  rw [hintroduces.unchanged.size_eq] at hown
  rw [(hr.of_declare hrun).get?_afterAll operations (lt_of_get? hown), hown] at hd
  cases hd
  exact nodup_eraseDups interfaces

/-- A type that is no instantiation has no interface twice. Parameters have none at all. -/
theorem Reachable.nodup_interfaces_of_not_instantiation (hs : s.Reachable)
    (hd : s.get? type = some d) (hnot : d.origin.isInstantiation = false) : d.interfaces.Nodup := by
  have hwf := hs.coherent.wellFormed
  cases hdeclared : d.origin.isDeclared with
  | true => exact hs.nodup_interfaces_of_declared hd hdeclared
  | false =>
    have hkind : d.kind = .parameter := by
      refine (hwf.kind_parameter_iff hd).mpr ?_
      cases ho : d.origin with
      | declared | definition =>
        rw [ho] at hdeclared
        cases hdeclared
      | instantiation =>
        rw [ho] at hnot
        cases hnot
      | typeParameter declaring position => exact .inl ⟨declaring, position, rfl⟩
      | methodParameter => exact .inr rfl
    have hnone := (hwf.sound type d hd).supertypes_parameter hkind
    rw [(List.append_eq_nil_iff.mp hnone).2]
    exact List.nodup_nil

/-! ## Instantiations -/

/-- Where the interfaces of a type are those of another one with the parameters replaced, none comes
twice exactly if the replacement keeps them apart. -/
theorem WellFormed.nodup_interfaces_iff (hs : s.WellFormed) (hd : s.get? type = some d)
    (himage : d.interfaces.map s.tree = g.interfaces.map (s.image params args))
    (hnodup : g.interfaces.Nodup) :
    d.interfaces.Nodup ↔ s.KeepsApart params args g.interfaces := by
  have hknown : ∀ i ∈ d.interfaces, i < s.size := fun i hi =>
    (hs.sound type d hd).supertypes_lt (Descriptor.mem_supertypes_of_mem hi)
  rw [← hs.nodup_map_tree_iff hknown, himage, List.nodup_map_iff_inj_on hnodup, KeepsApart]

/-- A type that is no instantiation has no interface twice. An instantiation has as many interfaces
as its definition, and none of them twice exactly if its arguments keep the interfaces of the
definition apart. -/
theorem Reachable.nodup_interfaces (hs : s.Reachable) (hd : s.get? type = some d) :
    (d.origin.isInstantiation = false → d.interfaces.Nodup) ∧
      ∀ definition args isOpen, d.origin = .instantiation definition args isOpen →
        ∃ g params, s.get? definition = some g ∧ g.origin = .definition params ∧
          d.interfaces.length = g.interfaces.length ∧
          (d.interfaces.Nodup ↔ s.KeepsApart params args g.interfaces) := by
  refine ⟨hs.nodup_interfaces_of_not_instantiation hd, fun definition args isOpen ho => ?_⟩
  have hwf := hs.coherent.wellFormed
  have horigin : s.origin? type = some (.instantiation definition args isOpen) := by
    rw [origin?_of_get? hd, ho]
  obtain ⟨_, -, hsound⟩ := hwf.instantiation horigin
  obtain ⟨params, hparams, -⟩ := hsound.parameters
  obtain ⟨g, hg, hgo, -⟩ := hwf.sound_of_origin? hparams
  have himage : d.interfaces.map s.tree = g.interfaces.map (s.image params args) := by
    have hcoherent := hs.coherent.coherent type (lt_of_get? hd) id
    have hinterfaces := (hcoherent d g definition args isOpen hd ho hg).2
    rwa [Descriptor.arguments, hgo] at hinterfaces
  refine ⟨g, params, hg, hgo, ?_, hwf.nodup_interfaces_iff hd himage ?_⟩
  · simpa only [List.length_map] using congrArg List.length himage
  · exact hs.nodup_interfaces_of_declared hg (by rw [hgo]; rfl)

/-- An interface `I<T>`, a class `A`, and a class `Two<T, U>` with the interfaces `I<T>` and `I<U>`.
The type `Two<A, A>` has been read. -/
def merged : Store :=
  Store.empty.afterAll
    [.declare { Declaration.plain .interface "I" with parameters := ["T"] },
      .declare (.plain .classType "A"),
      .declare { Declaration.plain .classType "Two" with
        parameters := ["T", "U"], interfaces := ["I<T>", "I<U>"] },
      .readType "Two<A, A>"]

theorem reachable_merged : merged.Reachable := Reachable.empty.afterAll _

theorem get?_merged : merged.get? 8 =
    some ⟨"Two", none, .classType, .none, .instantiation 3 [2, 2] false, none, [9, 9]⟩ := by
  decide +kernel

/-- `Two<T, U>` has two interfaces, which are the same one if `A` stands for both parameters. -/
theorem nodup_interfaces_merged :
    (∃ g, merged.get? 3 = some g ∧ g.interfaces = [6, 7] ∧ g.interfaces.Nodup) ∧
      ¬ merged.KeepsApart [4, 5] [2, 2] [6, 7] := by
  have hg : merged.get? 3 =
      some ⟨"Two", none, .classType, .none, .definition [4, 5], none, [6, 7]⟩ := by
    decide +kernel
  refine ⟨⟨_, hg, rfl, (reachable_merged.nodup_interfaces hg).1 rfl⟩, fun happart => ?_⟩
  obtain ⟨g, params, hg', ho, -, hiff⟩ :=
    (reachable_merged.nodup_interfaces get?_merged).2 3 [2, 2] false rfl
  rw [hg] at hg'
  cases hg'
  cases ho
  exact absurd (hiff.mpr happart) (by decide)

/-- `Two<A, A>` has the interface `I<A>` twice. -/
theorem not_nodup_interfaces :
    ¬ ∀ s : Store, s.Reachable → ∀ type d, s.get? type = some d → d.interfaces.Nodup := by
  intro hnodup
  exact absurd (hnodup merged reachable_merged 8 _ get?_merged) (by decide)

end NominalTypes.Store
