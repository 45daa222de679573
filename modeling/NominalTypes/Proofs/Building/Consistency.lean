import NominalTypes.Proofs.Building.TypeTree

/-!
# Consistent stores

A well-formed store is consistent if every instantiation has the supertypes of its definition with
the parameters replaced. While an operation is under way this may be untrue of some types, whose
supertypes are still to be computed.

- `Store.image`: the tree of a type with parameters replaced by arguments.
- `Store.CoherentAt`: an instantiation has the supertypes that its definition prescribes.
- `Store.Consistent`: well-formed, and coherent but for pending types.
- `Store.Builds`: growth by instantiations alone, which is all that reading an expression does.
- `Store.Consistent.later`: what keeps a store consistent.
-/

namespace NominalTypes.Store

variable {s t u : Store} {type : TypeId} {params args : List TypeId}

/-! ## Images -/

/-- The tree of a type with every parameter replaced by its argument. -/
def image (s : Store) (params args : List TypeId) (type : TypeId) : TypeTree :=
  (s.tree type).subst (s.assignment params args)

theorem assigned?_mem {arg : TypeId} (h : assigned? params args type = some arg) :
    type ∈ params ∧ arg ∈ args := by
  unfold assigned? at h
  obtain ⟨l₁, l₂, heq, -⟩ := List.lookup_eq_some_iff.mp h
  have hmem : (type, arg) ∈ params.zip args := by
    rw [heq]
    exact List.mem_append_right _ List.mem_cons_self
  exact List.of_mem_zip hmem

theorem KeepsOutlines.assignment_eq (h : s.KeepsOutlines t) (hs : s.WellFormed)
    (hargs : ∀ arg ∈ args, arg < s.size) : t.assignment params args = s.assignment params args := by
  funext param
  unfold assignment
  cases harg : assigned? params args param with
  | none => rfl
  | some arg => exact congrArg some (h.tree_eq hs (hargs arg (assigned?_mem harg).2))

/-- Later stores give the same images. -/
theorem KeepsOutlines.image_eq (h : s.KeepsOutlines t) (hs : s.WellFormed) (htype : type < s.size)
    (hargs : ∀ arg ∈ args, arg < s.size) : t.image params args type = s.image params args type := by
  rw [image, image, h.assignment_eq hs hargs, h.tree_eq hs htype]

namespace WellFormed

/-- Parameters are leaves. -/
theorem tree_parameter (hs : s.WellFormed) (h : s.isParameter type = true) :
    s.tree type = .leaf type := by
  obtain ⟨d, hd, hkind⟩ := Option.map_eq_some_iff.mp (isParameter_iff.mp h)
  have ho := origin?_of_get? hd
  rcases (hs.kind_parameter_iff hd).mp hkind with ⟨declaring, position, horigin⟩ | horigin
  · rw [horigin] at ho
    exact tree_typeParameter ho
  · rw [horigin] at ho
    exact tree_leaf (by rw [definitionOf?_eq_origin?, ho])

/-- A type without parameters among its leaves is its own image. -/
theorem image_of_closed (hs : s.WellFormed) (hparams : ∀ p ∈ params, s.isParameter p = true)
    (htype : type < s.size) (hopen : s.isOpen type = false) :
    s.image params args type = s.tree type := by
  refine TypeTree.subst_eq_self _ _ fun leaf hleaf => ?_
  unfold assignment
  cases harg : assigned? params args leaf with
  | none => rfl
  | some arg =>
    have hparameter := hparams leaf (assigned?_mem harg).1
    have htrue := (hs.isOpen_iff htype).mpr ⟨leaf, hleaf, hparameter⟩
    rw [hopen] at htrue
    cases htrue

/-- An assigned parameter becomes its argument. -/
theorem image_of_assigned (hs : s.WellFormed) (hparameter : s.isParameter type = true)
    {arg : TypeId} (harg : assigned? params args type = some arg) :
    s.image params args type = s.tree arg := by
  rw [image, hs.tree_parameter hparameter, TypeTree.subst, assignment, harg]
  rfl

/-- A parameter that is not assigned stays. -/
theorem image_of_unassigned (hs : s.WellFormed) (hparameter : s.isParameter type = true)
    (harg : assigned? params args type = none) : s.image params args type = s.tree type := by
  rw [image, hs.tree_parameter hparameter, TypeTree.subst, assignment, harg]
  rfl

/-- A type that is not assigned and has no open arguments is its own image. -/
theorem image_of_closed_arguments (hs : s.WellFormed)
    (hparams : ∀ p ∈ params, s.isParameter p = true) {d : Descriptor} (hd : s.get? type = some d)
    (harg : assigned? params args type = none) (hclosed : d.hasOpenArguments = false) :
    s.image params args type = s.tree type := by
  by_cases hparameter : s.isParameter type = true
  · exact hs.image_of_unassigned hparameter harg
  · refine hs.image_of_closed hparams (lt_of_get? hd) ?_
    rw [isParameter, hd, Option.any_some, Bool.not_eq_true] at hparameter
    rw [isOpen, hd, Option.any_some, Descriptor.isOpen, hparameter, hclosed]
    rfl

theorem image_instantiation (hs : s.WellFormed) {definition : TypeId} {inner : List TypeId}
    {isOpen : Bool} (ho : s.origin? type = some (.instantiation definition inner isOpen)) :
    s.image params args type = .node definition (inner.map (s.image params args)) := by
  rw [image, hs.tree_instantiation ho, TypeTree.subst, List.map_map]
  rfl

/-- The image of a definition has the arguments in the places of its parameters. -/
theorem image_definition (hs : s.WellFormed) {inner : List TypeId}
    (ho : s.origin? type = some (.definition inner)) :
    s.image params args type = .node type
      ((inner.map fun param => (assigned? params args param).getD param).map s.tree) := by
  rw [image, tree_definition ho, TypeTree.subst, List.map_map, List.map_map]
  congr 1
  refine List.map_congr_left fun param hparam => ?_
  obtain ⟨position, hposition⟩ := hs.parameter_origin? ho hparam
  rw [Function.comp_apply, Function.comp_apply, TypeTree.subst, assignment]
  cases assigned? params args param with
  | none => exact (tree_typeParameter hposition).symm
  | some arg => rfl

/-- A type is of the sort of the declared type behind it. -/
theorem kind?_head (hs : s.WellFormed) (htype : type < s.size) :
    s.kind? (s.head type) = s.kind? type := by
  obtain ⟨d, hd⟩ := exists_get? htype
  have ho := origin?_of_get? hd
  unfold head
  rw [definitionOf?_eq_origin?]
  cases horigin : d.origin with
  | declared | definition _ | typeParameter _ _ | methodParameter =>
    rw [horigin] at ho
    rw [ho]
    rfl
  | instantiation generic inner isOpen =>
    rw [horigin] at ho
    obtain ⟨d', hd', hsound⟩ := hs.instantiation ho
    obtain ⟨g, hg, -, -, hkind, -⟩ := hsound.outline
    rw [ho, kind?_of_get? hd', kind?_eq_outline?]
    show (s.outline? generic).map Descriptor.kind = _
    rw [hg, hkind]
    rfl

/-- The image of a type that is not a parameter itself has the same declared type at the top. -/
theorem head_image (hparams : ∀ p ∈ params, s.isParameter p = true)
    (hnot : s.isParameter type = false) : (s.image params args type).head = s.head type := by
  rw [← head_tree]
  refine TypeTree.head_subst _ fun leaf hleaf => ?_
  obtain rfl := eq_of_tree_eq_leaf hleaf
  unfold assignment
  cases harg : assigned? params args type with
  | none => rfl
  | some arg =>
    rw [hparams type (assigned?_mem harg).1] at hnot
    cases hnot

/-- So it is of the same sort. -/
theorem kind?_of_image (hs : s.WellFormed) (hparams : ∀ p ∈ params, s.isParameter p = true)
    (htype : type < s.size) (hnot : s.isParameter type = false) {result : TypeId}
    (hresult : result < s.size) (h : s.tree result = s.image params args type) :
    s.kind? result = s.kind? type := by
  have hhead : s.head result = s.head type := by
    rw [← head_tree, h, head_image hparams hnot]
  rw [← hs.kind?_head hresult, hhead, hs.kind?_head htype]

end WellFormed

/-! ## Coherence -/

/-- If the type is an instantiation, its supertypes are those of its definition with the parameters
replaced by the arguments. -/
def CoherentAt (s : Store) (type : TypeId) : Prop :=
  ∀ (d g : Descriptor) (generic : TypeId) (args : List TypeId) (isOpen : Bool),
    s.get? type = some d → d.origin = .instantiation generic args isOpen →
    s.get? generic = some g →
      d.base.map s.tree = g.base.map (s.image g.arguments args) ∧
        d.interfaces.map s.tree = g.interfaces.map (s.image g.arguments args)

/-- The base type is one of the supertypes, so replacement may be said of all of them at once. -/
theorem CoherentAt.map_supertypes (h : s.CoherentAt type) {d g : Descriptor} {generic : TypeId}
    {isOpen : Bool} (hd : s.get? type = some d) (horigin : d.origin = .instantiation generic args isOpen)
    (hg : s.get? generic = some g) :
    d.supertypes.map s.tree = g.supertypes.map (s.image g.arguments args) := by
  obtain ⟨hbase, hinterfaces⟩ := h d g generic args isOpen hd horigin hg
  rw [Descriptor.map_supertypes, Descriptor.map_supertypes, hbase, hinterfaces]

/-- Coherence depends on the two descriptors alone. -/
theorem CoherentAt.later (h : s.CoherentAt type) (hs : s.WellFormed) (hkeeps : s.KeepsOutlines t)
    (htype : t.get? type = s.get? type)
    (hgeneric : ∀ generic args isOpen, s.origin? type = some (.instantiation generic args isOpen) →
      t.get? generic = s.get? generic) : t.CoherentAt type := by
  intro d g generic args isOpen hd horigin hg
  rw [htype] at hd
  have ho : s.origin? type = some (.instantiation generic args isOpen) := by
    rw [origin?_of_get? hd, horigin]
  rw [hgeneric generic args isOpen ho] at hg
  obtain ⟨hbase, hinterfaces⟩ := h d g generic args isOpen hd horigin hg
  have hsound := hs.sound type d hd
  have hgsound := hs.sound generic g hg
  have hargs : ∀ arg ∈ args, arg < s.size := fun arg harg => (hs.args_known ho harg).2
  obtain ⟨hbaseTree, hinterfacesTree⟩ := d.map_supertypes_congr fun x hx =>
    hkeeps.tree_eq hs (hsound.supertypes_lt hx)
  obtain ⟨hbaseImage, hinterfacesImage⟩ := g.map_supertypes_congr fun x hx =>
    hkeeps.image_eq hs (hgsound.supertypes_lt hx) hargs
  exact ⟨by rw [hbaseTree, hbaseImage, hbase],
    by rw [hinterfacesTree, hinterfacesImage, hinterfaces]⟩

/-- Well-formed, and every known type that is not pending is coherent. -/
structure Consistent (s : Store) (pending : TypeId → Prop) : Prop where
  wellFormed : s.WellFormed
  coherent : ∀ type, type < s.size → ¬ pending type → s.CoherentAt type

/-- Well-formed, and every instantiation has the supertypes that its definition prescribes. -/
abbrev Coherent (s : Store) : Prop := s.Consistent fun _ => False

theorem Consistent.weaken {pending pending' : TypeId → Prop} (h : s.Consistent pending)
    (himp : ∀ type, pending type → pending' type) : s.Consistent pending' :=
  ⟨h.wellFormed, fun type htype hnot => h.coherent type htype (mt (himp type) hnot)⟩

/-- A consistent store stays consistent when types are added whose coherence is seen to, and when
old types change that are not definitions and whose coherence is seen to as well. -/
theorem Consistent.later {pending pending' : TypeId → Prop} (h : s.Consistent pending)
    (ht : t.WellFormed) (hkeeps : s.KeepsOutlines t)
    (hdefinition : ∀ type params, s.origin? type = some (.definition params) →
      t.get? type = s.get? type)
    (hold : ∀ type, type < s.size → pending type ∨ t.get? type ≠ s.get? type → ¬ pending' type →
      t.CoherentAt type)
    (hnew : ∀ type, s.size ≤ type → type < t.size → ¬ pending' type → t.CoherentAt type) :
    t.Consistent pending' := by
  refine ⟨ht, fun type htype hnot => ?_⟩
  by_cases hlt : type < s.size
  swap
  · exact hnew type (Nat.le_of_not_lt hlt) htype hnot
  by_cases hpending : pending type
  · exact hold type hlt (.inl hpending) hnot
  by_cases hget : t.get? type = s.get? type
  swap
  · exact hold type hlt (.inr hget) hnot
  refine (h.coherent type hlt hpending).later h.wellFormed hkeeps hget ?_
  intro generic args isOpen ho
  obtain ⟨d, -, hsound⟩ := h.wellFormed.instantiation ho
  obtain ⟨params, hparams, -, -⟩ := hsound.parameters
  exact hdefinition generic params hparams

/-- Growth leaves the old types alone, and only the new ones have to be seen to. -/
theorem Consistent.grow {pending pending' : TypeId → Prop} (h : s.Consistent pending)
    (hgrows : s.Grows t) (ht : t.WellFormed) (himp : ∀ type, pending type → pending' type)
    (hnew : ∀ type, s.size ≤ type → type < t.size → ¬ pending' type → t.CoherentAt type) :
    t.Consistent pending' := by
  refine h.later ht hgrows.keepsOutlines ?_ ?_ hnew
  · exact fun other inner hother => hgrows.get?_eq (lt_of_origin? hother)
  · intro other hlt hor hnot
    rcases hor with hpending | hget
    · exact absurd (himp other hpending) hnot
    · exact absurd (hgrows.get?_eq hlt) hget

/-! ## Growth by instantiations -/

/-- The store has grown, and all new types are instantiations. -/
structure Builds (s t : Store) : Prop where
  grows : s.Grows t
  new : ∀ type, s.size ≤ type → type < t.size →
    ∃ generic args isOpen, t.origin? type = some (.instantiation generic args isOpen)

namespace Builds

theorem keepsOutlines (h : s.Builds t) : s.KeepsOutlines t := h.grows.keepsOutlines

theorem size_le (h : s.Builds t) : s.size ≤ t.size := h.grows.size_le

theorem trans (h : s.Builds t) (h' : t.Builds u) : s.Builds u := by
  refine ⟨h.grows.trans h'.grows, fun type hle hlt => ?_⟩
  by_cases ht : type < t.size
  · obtain ⟨generic, args, isOpen, ho⟩ := h.new type hle ht
    exact ⟨generic, args, isOpen, h'.keepsOutlines.origin?_some ho⟩
  · exact h'.new type (Nat.le_of_not_lt ht) hlt

end Builds

theorem UnchangedButNames.size_eq (h : s.UnchangedButNames t) : t.size = s.size := by
  rw [h.eq]
  rfl

theorem UnchangedButNames.get?_eq (h : s.UnchangedButNames t) (type : TypeId) :
    t.get? type = s.get? type := by
  rw [h.eq]
  rfl

theorem UnchangedButNames.builds (h : s.UnchangedButNames t) (hs : s.Closed) : s.Builds t :=
  ⟨h.grows hs, fun type hle hlt => absurd hlt (by rw [h.size_eq]; exact Nat.not_lt.mpr hle)⟩

theorem Closed.builds_refl (hs : s.Closed) : s.Builds s := (UnchangedButNames.refl s).builds hs

theorem Consistent.unchangedButNames {pending : TypeId → Prop} (hs : s.Consistent pending)
    (h : s.UnchangedButNames t) : t.Consistent pending :=
  hs.later (hs.wellFormed.unchangedButNames h) h.keepsOutlines (fun type _ _ => h.get?_eq type)
    (fun type _ hor hnot => absurd hor (not_or_intro hnot (not_not_intro (h.get?_eq type))))
    (fun type hle hlt => absurd hlt (by rw [h.size_eq]; exact Nat.not_lt.mpr hle))

/-- Changing the supertypes of a new type leaves what the earlier store is like. -/
theorem Grows.setSupertypes (h : s.Grows t) (htype : s.size ≤ type) (base : Option TypeId)
    (interfaces : List TypeId) : s.Grows (t.setSupertypes type base interfaces) := by
  refine ⟨?_, h.names⟩
  have hrollback : (t.setSupertypes type base interfaces).rollback s.size = t.rollback s.size := by
    simp only [Store.rollback, Store.setSupertypes, mk.injEq, and_true, true_and]
    refine Array.ext_getElem? fun i => ?_
    simp only [Array.take_eq_extract, Array.getElem?_extract, Array.getElem?_modify,
      Array.size_modify]
    split
    · next hi =>
      have hne : ¬ type = 0 + i := by lia
      rw [if_neg hne]
    · rfl
  rw [hrollback, h.rollback]
  rfl

theorem Builds.setSupertypes (h : s.Builds t) (htype : s.size ≤ type) (base : Option TypeId)
    (interfaces : List TypeId) : s.Builds (t.setSupertypes type base interfaces) := by
  refine ⟨h.grows.setSupertypes htype base interfaces, fun other hle hlt => ?_⟩
  rw [size_setSupertypes] at hlt
  obtain ⟨generic, args, isOpen, ho⟩ := h.new other hle hlt
  exact ⟨generic, args, isOpen,
    (t.keepsOutlines_setSupertypes type base interfaces).origin?_some ho⟩

end NominalTypes.Store
