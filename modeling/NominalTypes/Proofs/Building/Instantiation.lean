import NominalTypes.Proofs.Building.Consistency

/-!
# Instantiation keeps stores consistent

Applying a definition to arguments, replacing parameters in a type and filling in supertypes call
one another, on a store that grows meanwhile. The first is bounded by the number of levels, which
the induction is on; `Store.Applies` is what it proves of every bound, with any types pending.

- `Store.Reaches`: the answer of an operation reads as a given tree, in a store that has grown by
  instantiations and is consistent.
- `Store.Applies`: what an operation does that applies definitions to arguments.
- `Store.substitute_ends`, `Store.substituteSupertypes_ends`: replacement of parameters, with any
  such operation.
- `Store.instantiateWithin_applies`: each bound gives such an operation.
- `Store.instantiate_ends`, `Store.nullableForm_ends`: the operations done as a whole.
-/

namespace NominalTypes.Store

open Build (Ends ends_pure ends_throw ends_get ends_set ends_modify)

variable {pending pending' : TypeId → Prop} {s t u : Store} {type definition : TypeId}
  {params args : List TypeId} {apply : TypeId → List TypeId → Build TypeId}

/-! ## What operations reach -/

/-- From the store `s`, the store `t` and a type of it have been reached that reads as the tree. -/
structure Reaches (pending : TypeId → Prop) (s : Store) (tree : TypeTree) (result : TypeId)
    (t : Store) : Prop where
  consistent : t.Consistent pending
  builds : s.Builds t
  known : result < t.size
  tree_eq : t.tree result = tree

/-- The start may be moved back. -/
theorem Reaches.trans {tree : TypeTree} {result : TypeId} (h : s.Builds t)
    (h' : t.Reaches pending tree result u) : s.Reaches pending tree result u :=
  ⟨h'.consistent, h.trans h'.builds, h'.known, h'.tree_eq⟩

/-- A known type reads as its tree at once. -/
theorem Consistent.reaches_self (hs : s.Consistent pending) (htype : type < s.size) :
    s.Reaches pending (s.tree type) type s :=
  ⟨hs, hs.wellFormed.closed.builds_refl, htype, rfl⟩

/-- Later stores read known types as the same trees. -/
theorem Builds.map_tree_eq (h : s.Builds t) (hs : s.WellFormed) {types : List TypeId}
    (htypes : ∀ type ∈ types, type < s.size) : types.map t.tree = types.map s.tree :=
  List.map_congr_left fun type htype => h.keepsOutlines.tree_eq hs (htypes type htype)

/-- An operation that reaches a tree for every entry of a list. -/
theorem ends_mapM_reaches {α : Type} {f : α → Build TypeId} {tree : α → TypeTree} {as : List α}
    (hs : s.Consistent pending)
    (h : ∀ a ∈ as, ∀ t, t.Consistent pending → s.Builds t →
      (f a).Ends t (t.Reaches pending (tree a)) fun u => t.Builds u) :
    (as.mapM f).Ends s
      (fun results t => t.Consistent pending ∧ s.Builds t ∧ (∀ r ∈ results, r < t.size) ∧
        results.map t.tree = as.map tree)
      fun t => s.Builds t := by
  have hrun : (as.mapM f).Ends s
      (fun results t => t.Consistent pending ∧ s.Builds t ∧
        List.Forall₂ (fun a r => r < t.size ∧ t.tree r = tree a) as results)
      fun t => s.Builds t := by
    refine Build.ends_mapM Builds (fun t ht => ht.wellFormed.closed.builds_refl)
      (fun h h' => h.trans h') ?_ hs ?_
    · rintro t u a r ht htu ⟨hr, htree⟩
      exact ⟨Nat.lt_of_lt_of_le hr htu.size_le,
        (htu.keepsOutlines.tree_eq ht.wellFormed hr).trans htree⟩
    · intro a ha t ht hst
      refine (h a ha t ht hst).mono ?_ fun u hu => hst.trans hu
      exact fun r u hu => ⟨hu.consistent, hu.builds, hu.known, hu.tree_eq⟩
  refine hrun.mono ?_ fun _ => id
  rintro results t ⟨ht, hst, hrelated⟩
  refine ⟨ht, hst, ?_⟩
  clear hrun h
  induction hrelated with
  | nil => exact ⟨by simp, rfl⟩
  | cons hhead _ ih =>
    obtain ⟨hknown, htrees⟩ := ih
    refine ⟨List.forall_mem_cons.mpr ⟨hhead.1, hknown⟩, ?_⟩
    rw [List.map_cons, List.map_cons, hhead.2, htrees]

/-! ## Replacing parameters -/

/-- The operation applies definitions to arguments: from every consistent store, its answer reads as
the definition with the arguments, and the store grows by instantiations, also if it fails. -/
def Applies (pending : TypeId → Prop) (apply : TypeId → List TypeId → Build TypeId) : Prop :=
  ∀ (s : Store) (definition : TypeId) (args : List TypeId), s.Consistent pending →
    (apply definition args).Ends s
      (fun result t => s.Reaches pending (.node definition (args.map t.tree)) result t)
      fun t => s.Builds t

/-- A type whose arguments have been replaced: itself if they are the same. -/
theorem Applies.ends_unless_same (happly : Applies pending apply) (hs : s.Consistent pending)
    {inner replaced : List TypeId} (htype : type < s.size)
    (htree : s.tree type = .node definition (inner.map s.tree))
    (hreplaced : ∀ r ∈ replaced, r < s.size) :
    (if replaced = inner then pure type else apply definition replaced : Build TypeId).Ends s
      (s.Reaches pending (.node definition (replaced.map s.tree))) fun t => s.Builds t := by
  split
  · next heq =>
    rw [heq, ← htree]
    exact ends_pure (hs.reaches_self htype)
  · refine (happly s definition replaced hs).mono ?_ fun _ => id
    intro result t ht
    rwa [ht.builds.map_tree_eq hs.wellFormed hreplaced] at ht

/-- The arguments of a definition after replacement are known. -/
theorem WellFormed.replaced_lt (hs : s.WellFormed) {inner : List TypeId}
    (ho : s.origin? type = some (.definition inner)) (hargs : ∀ arg ∈ args, arg < s.size) :
    ∀ r ∈ inner.map fun param => (assigned? params args param).getD param, r < s.size := by
  intro r hr
  obtain ⟨param, hparam, rfl⟩ := List.mem_map.mp hr
  cases hassigned : assigned? params args param with
  | none => exact lt_of_origin? (hs.parameter_origin? ho hparam).choose_spec
  | some arg => exact hargs arg (assigned?_mem hassigned).2

/-- Replacing parameters gives the image of a type. -/
theorem substitute_ends (happly : Applies pending apply) (hs : s.Consistent pending)
    (hparams : ∀ p ∈ params, s.isParameter p = true) (hargs : ∀ arg ∈ args, arg < s.size)
    (htype : type < s.size) :
    (substitute apply params args type).Ends s (s.Reaches pending (s.image params args type))
      fun t => s.Builds t := by
  -- the arguments of an instantiation are older than itself
  induction type using Nat.strongRecOn generalizing s with
  | ind type ih =>
    have hwf := hs.wellFormed
    rw [substitute]
    cases harg : assigned? params args type with
    | some arg =>
      obtain ⟨hparam, hmem⟩ := assigned?_mem harg
      rw [hwf.image_of_assigned (hparams type hparam) harg]
      exact ends_pure (hs.reaches_self (hargs arg hmem))
    | none =>
      obtain ⟨d, hd⟩ := exists_get? htype
      refine Ends.bind (ends_descriptor_of_get? hd ?_)
      have ho := origin?_of_get? hd
      split
      swap
      · next hclosed =>
        rw [hwf.image_of_closed_arguments hparams hd harg (Bool.not_eq_true _ ▸ hclosed)]
        exact ends_pure (hs.reaches_self htype)
      next hopen =>
      cases horigin : d.origin with
      | declared | typeParameter _ _ | methodParameter =>
        rw [Descriptor.hasOpenArguments, horigin] at hopen
        cases hopen
      | definition inner =>
        rw [horigin] at ho
        have htree : s.tree type = .node type (inner.map s.tree) := by
          rw [tree_definition ho, hwf.map_tree_parameters ho]
        rw [hwf.image_definition ho]
        exact happly.ends_unless_same hs htype htree (hwf.replaced_lt ho hargs)
      | instantiation definition inner isOpen =>
        rw [horigin] at ho
        -- the store grows from one argument to the next, which keeps the image of each
        have hinner : (inner.mapM fun arg =>
            if arg < type then substitute apply params args arg else pure arg).Ends s
            (fun results t => t.Consistent pending ∧ s.Builds t ∧ (∀ r ∈ results, r < t.size) ∧
              results.map t.tree = inner.map (s.image params args))
            fun t => s.Builds t := by
          refine ends_mapM_reaches hs ?_
          intro arg harg t ht hst
          obtain ⟨hlt, hknown⟩ := hwf.args_known ho harg
          have hkeeps := hst.keepsOutlines
          rw [if_pos hlt, ← hkeeps.image_eq hwf hknown hargs]
          exact ih arg hlt ht (hkeeps.all_isParameter hparams) (hkeeps.all_lt hargs)
            (Nat.lt_of_lt_of_le hknown hst.size_le)
        refine Ends.bind (hinner.mono ?_ fun _ => id)
        rintro results t ⟨ht, hst, hknown, htrees⟩
        have htree := ht.wellFormed.tree_instantiation (hst.keepsOutlines.origin?_some ho)
        rw [hwf.image_instantiation ho, ← htrees]
        exact (happly.ends_unless_same ht (Nat.lt_of_lt_of_le htype hst.size_le) htree hknown).mono
          (fun result u hu => hu.trans hst) fun u hu => hst.trans hu

/-- A store that has grown gives the same images. -/
theorem Builds.substitute_ends (h : s.Builds t) (hs : s.WellFormed) (ht : t.Consistent pending)
    (happly : Applies pending apply) (hparams : ∀ p ∈ params, s.isParameter p = true)
    (hargs : ∀ arg ∈ args, arg < s.size) (htype : type < s.size) :
    (substitute apply params args type).Ends t (t.Reaches pending (s.image params args type))
      fun u => t.Builds u := by
  rw [← h.keepsOutlines.image_eq hs htype hargs]
  exact Store.substitute_ends happly ht (h.keepsOutlines.all_isParameter hparams)
    (h.keepsOutlines.all_lt hargs) (Nat.lt_of_lt_of_le htype h.size_le)

/-! ## Filling in supertypes -/

/-- A type with its descriptor, an instantiation, and the descriptor of its definition. -/
structure Instantiates (s : Store) (type definition : TypeId) (d g : Descriptor) : Prop where
  type_eq : s.get? type = some d
  definition_eq : s.get? definition = some g
  origin_eq : ∃ isOpen, d.origin = .instantiation definition d.arguments isOpen
  parameters : g.origin = .definition g.arguments

theorem WellFormed.instantiates (hs : s.WellFormed) {isOpen : Bool}
    (ho : s.origin? type = some (.instantiation definition args isOpen)) :
    ∃ d g, s.Instantiates type definition d g ∧ d.arguments = args := by
  obtain ⟨d, hd, hdo, -⟩ := hs.sound_of_origin? ho
  obtain ⟨d', -, hsound⟩ := hs.instantiation ho
  obtain ⟨params, hparams, -⟩ := hsound.parameters
  obtain ⟨g, hg, hgo, -⟩ := hs.sound_of_origin? hparams
  have hargs : d.arguments = args := by rw [Descriptor.arguments, hdo]
  refine ⟨d, g, ⟨hd, hg, ⟨isOpen, by rw [hdo, hargs]⟩, ?_⟩, hargs⟩
  rw [Descriptor.arguments, hgo]

namespace Instantiates

variable {d g : Descriptor}

theorem origin? (h : s.Instantiates type definition d g) :
    ∃ isOpen, s.origin? type = some (.instantiation definition d.arguments isOpen) := by
  obtain ⟨isOpen, horigin⟩ := h.origin_eq
  exact ⟨isOpen, by rw [origin?_of_get? h.type_eq, horigin]⟩

theorem isParameter (h : s.Instantiates type definition d g) (hs : s.WellFormed) :
    ∀ p ∈ g.arguments, s.isParameter p = true := by
  intro p hp
  have ho : s.origin? definition = some (.definition g.arguments) := by
    rw [origin?_of_get? h.definition_eq, h.parameters]
  exact hs.isParameter_of_mem ho hp

theorem args_lt (h : s.Instantiates type definition d g) (hs : s.WellFormed) :
    ∀ arg ∈ d.arguments, arg < s.size := by
  obtain ⟨isOpen, ho⟩ := h.origin?
  exact fun arg harg => (hs.args_known ho harg).2

/-- The supertypes of a definition are not parameters. -/
theorem supertype_isParameter (h : s.Instantiates type definition d g) (hs : s.WellFormed)
    {x : TypeId} (hx : x ∈ g.supertypes) : s.isParameter x = false := by
  have hsound := hs.sound definition g h.definition_eq
  by_contra htrue
  have hkind := isParameter_iff.mp (Bool.not_eq_false _ ▸ htrue)
  rcases Descriptor.mem_supertypes.mp hx with hbase | hinterface
  · rw [hsound.base x hbase] at hkind
    cases hkind
  · rw [hsound.interfaces x hinterface] at hkind
    cases hkind

theorem kind_eq (h : s.Instantiates type definition d g) (hs : s.WellFormed) :
    d.kind = g.kind ∧ d.kind ≠ .parameter := by
  obtain ⟨isOpen, ho⟩ := h.origin?
  obtain ⟨d', hd', hsound⟩ := hs.instantiation ho
  rw [h.type_eq] at hd'
  cases hd'
  obtain ⟨g', hg', -, -, hkind, -⟩ := hsound.outline
  rw [outline?, h.definition_eq] at hg'
  cases hg'
  obtain ⟨isOpen', horigin⟩ := h.origin_eq
  exact ⟨hkind, mt (hs.kind_parameter_iff h.type_eq).mp (by simp [horigin])⟩

theorem generic_ne (h : s.Instantiates type definition d g) (hs : s.WellFormed) :
    type ≠ definition := by
  obtain ⟨isOpen, ho⟩ := h.origin?
  obtain ⟨_, -, hsound⟩ := hs.instantiation ho
  exact (Nat.ne_of_lt hsound.generic_lt).symm

end Instantiates

/-- In the later store, a base type and interfaces that come from those of a definition: with its
parameters replaced by the arguments of an instantiation. -/
structure Replaced (s t : Store) (d g : Descriptor) (base : Option TypeId)
    (interfaces : List TypeId) : Prop where
  base_lt : ∀ b ∈ base, b < t.size
  base_tree : base.map t.tree = g.base.map (s.image g.arguments d.arguments)
  interfaces_lt : ∀ i ∈ interfaces, i < t.size
  interfaces_tree : interfaces.map t.tree = g.interfaces.map (s.image g.arguments d.arguments)

namespace Instantiates

variable {d g : Descriptor} {base : Option TypeId} {interfaces : List TypeId}

/-- A supertype is of the sort of the one that it comes from, for its tree has the same top. -/
theorem kind?_of_image (h : s.Instantiates type definition d g) (hs : s.WellFormed)
    (hkeeps : s.KeepsOutlines t) (ht : t.WellFormed) {x result : TypeId} (hx : x ∈ g.supertypes)
    (hresult : result < t.size) (htree : t.tree result = s.image g.arguments d.arguments x) :
    t.kind? result = s.kind? x := by
  have hknown := (hs.sound definition g h.definition_eq).supertypes_lt hx
  have hnot : t.isParameter x = false := by
    have hnot := h.supertype_isParameter hs hx
    rw [Bool.eq_false_iff] at hnot ⊢
    rwa [ne_eq, isParameter_iff, hkeeps.kind?_eq hknown, ← isParameter_iff]
  rw [← hkeeps.image_eq hs hknown (h.args_lt hs)] at htree
  rw [← hkeeps.kind?_eq hknown]
  exact ht.kind?_of_image (fun p hp => hkeeps.isParameter (h.isParameter hs p hp))
    (Nat.lt_of_lt_of_le hknown hkeeps.size_le) hnot hresult htree

/-- The store is well-formed with the supertypes filled in. -/
theorem wellFormed_setSupertypes (h : s.Instantiates type definition d g) (hs : s.WellFormed)
    (hkeeps : s.KeepsOutlines t) (hnew : t.get? type = s.get? type) (ht : t.WellFormed)
    (hreplaced : s.Replaced t d g base interfaces) :
    (t.setSupertypes type base interfaces).WellFormed := by
  have hgsound := hs.sound definition g h.definition_eq
  obtain ⟨hkind, hparameter⟩ := h.kind_eq hs
  refine ht.setSupertypes (hnew.trans h.type_eq) hparameter ?_ ?_ ?_ ?_
  · rintro b rfl
    obtain ⟨x, hx, htree⟩ := Option.map_eq_some_iff.mp hreplaced.base_tree.symm
    rw [h.kind?_of_image hs hkeeps ht (Descriptor.mem_supertypes_of_base hx)
      (hreplaced.base_lt b rfl) htree.symm]
    exact hgsound.base x hx
  · intro i hi
    have hmem : t.tree i ∈ interfaces.map t.tree := List.mem_map_of_mem hi
    rw [hreplaced.interfaces_tree] at hmem
    obtain ⟨x, hx, htree⟩ := List.mem_map.mp hmem
    rw [h.kind?_of_image hs hkeeps ht (Descriptor.mem_supertypes_of_mem hx)
      (hreplaced.interfaces_lt i hi) htree.symm]
    exact hgsound.interfaces x hx
  · intro hinterface
    have hbase := hreplaced.base_tree
    rw [hkind] at hinterface
    rw [hgsound.base_interface hinterface] at hbase
    exact Option.map_eq_none_iff.mp hbase
  · intro hnot
    obtain ⟨isOpen, horigin⟩ := h.origin_eq
    rw [horigin] at hnot
    cases hnot

/-- And the instantiation has the supertypes that its definition prescribes. -/
theorem coherentAt_setSupertypes (h : s.Instantiates type definition d g) (hs : s.WellFormed)
    (hkeeps : s.KeepsOutlines t) (hold : t.get? definition = s.get? definition)
    (hnew : t.get? type = s.get? type) (ht : t.WellFormed)
    (hreplaced : s.Replaced t d g base interfaces) :
    (t.setSupertypes type base interfaces).CoherentAt type := by
  have hlater := t.keepsOutlines_setSupertypes type base interfaces
  have hgsound := hs.sound definition g h.definition_eq
  intro d' g' generic args isOpen hd' horigin' hg'
  rw [get?_setSupertypes, if_pos rfl, hnew, h.type_eq] at hd'
  cases hd'
  obtain ⟨isOpen', horigin⟩ := h.origin_eq
  have heq := horigin.symm.trans horigin'
  cases heq
  rw [get?_setSupertypes, if_neg (h.generic_ne hs), hold, h.definition_eq] at hg'
  cases hg'
  obtain ⟨hbaseImage, hinterfacesImage⟩ := g.map_supertypes_congr fun x hx =>
    (hkeeps.trans hlater).image_eq hs (hgsound.supertypes_lt hx) (h.args_lt hs)
  have hbaseTree : base.map (t.setSupertypes type base interfaces).tree = base.map t.tree :=
    Option.map_congr fun b hb => hlater.tree_eq ht (hreplaced.base_lt b hb)
  have hinterfacesTree : interfaces.map (t.setSupertypes type base interfaces).tree =
      interfaces.map t.tree :=
    List.map_congr_left fun i hi => hlater.tree_eq ht (hreplaced.interfaces_lt i hi)
  exact ⟨by rw [hbaseTree, hbaseImage, hreplaced.base_tree],
    by rw [hinterfacesTree, hinterfacesImage, hreplaced.interfaces_tree]⟩

/-- An instantiation whose supertypes have been filled in need no longer be pending. -/
theorem consistent_setSupertypes (h : s.Instantiates type definition d g) (hs : s.WellFormed)
    (hst : s.Builds t) (ht : t.Consistent pending')
    (hpending : ∀ other, pending' other → pending other ∨ other = type)
    (hreplaced : s.Replaced t d g base interfaces) :
    (t.setSupertypes type base interfaces).Consistent pending := by
  have hold := hst.grows.get?_eq (lt_of_get? h.definition_eq)
  have hnew := hst.grows.get?_eq (lt_of_get? h.type_eq)
  have hcoherent :=
    h.coherentAt_setSupertypes hs hst.keepsOutlines hold hnew ht.wellFormed hreplaced
  refine ht.later (h.wellFormed_setSupertypes hs hst.keepsOutlines hnew ht.wellFormed hreplaced)
    (t.keepsOutlines_setSupertypes type base interfaces) ?_ ?_ ?_
  · intro other params hother
    rw [get?_setSupertypes, if_neg]
    rintro rfl
    obtain ⟨isOpen, ho⟩ := h.origin?
    rw [hst.keepsOutlines.origin?_some ho] at hother
    cases hother
  · intro other _ hor hnot
    rcases hor with hother | hne
    · rcases hpending other hother with hother' | rfl
      · exact absurd hother' hnot
      · exact hcoherent
    · rw [get?_setSupertypes] at hne
      split at hne
      · next heq => exact heq ▸ hcoherent
      · exact absurd rfl hne
  · intro other hle hlt
    rw [size_setSupertypes] at hlt
    exact absurd hlt (Nat.not_lt.mpr hle)

/-- Replacing the parameters in the base type and then in the interfaces, and what comes next. -/
theorem replaceSupertypes_ends (h : s.Instantiates type definition d g)
    (happly : Applies pending apply) (hs : s.Consistent pending)
    {next : Option TypeId → List TypeId → Build Unit} {done : Unit → Store → Prop}
    {failed : Store → Prop}
    (hnext : ∀ base interfaces t, t.Consistent pending → s.Builds t →
      s.Replaced t d g base interfaces → (next base interfaces).Ends t done failed)
    (hfailed : ∀ t, s.Builds t → failed t) :
    (do
      let base ← g.base.mapM (substitute apply g.arguments d.arguments)
      let interfaces ← g.interfaces.mapM (substitute apply g.arguments d.arguments)
      next base interfaces : Build Unit).Ends s done failed := by
  have hwf := hs.wellFormed
  have hrefl := hwf.closed.builds_refl
  have hreplace : ∀ x ∈ g.supertypes, ∀ t, t.Consistent pending → s.Builds t →
      (substitute apply g.arguments d.arguments x).Ends t
        (t.Reaches pending (s.image g.arguments d.arguments x)) fun u => t.Builds u :=
    fun x hx t ht hst => hst.substitute_ends hwf ht happly (h.isParameter hwf) (h.args_lt hwf)
      ((hwf.sound definition g h.definition_eq).supertypes_lt hx)
  have hbase : (g.base.mapM (substitute apply g.arguments d.arguments)).Ends s
      (fun base t => t.Consistent pending ∧ s.Builds t ∧ (∀ b ∈ base, b < t.size) ∧
        base.map t.tree = g.base.map (s.image g.arguments d.arguments))
      fun t => s.Builds t := by
    refine Build.ends_mapM_option ?_ ?_
    · intro hnone
      rw [hnone]
      exact ⟨hs, hrefl, fun b hb => (Option.not_mem_none b hb).elim, rfl⟩
    · intro x hx
      refine (hreplace x (Descriptor.mem_supertypes_of_base hx) s hs hrefl).mono ?_ fun _ => id
      intro b t ht
      refine ⟨ht.consistent, ht.builds, fun b' hb' => ?_, ?_⟩
      · cases hb'
        exact ht.known
      · rw [hx, Option.map_some, Option.map_some, ht.tree_eq]
  refine Ends.bind (hbase.mono ?_ hfailed)
  rintro base t ⟨ht, hst, hbaseKnown, hbaseTree⟩
  have hinterfaces : (g.interfaces.mapM (substitute apply g.arguments d.arguments)).Ends t
      (fun interfaces u => u.Consistent pending ∧ t.Builds u ∧ (∀ i ∈ interfaces, i < u.size) ∧
        interfaces.map u.tree = g.interfaces.map (s.image g.arguments d.arguments))
      fun u => t.Builds u :=
    ends_mapM_reaches ht fun x hx u hu htu =>
      hreplace x (Descriptor.mem_supertypes_of_mem hx) u hu (hst.trans htu)
  refine Ends.bind (hinterfaces.mono ?_ fun u hu => hfailed u (hst.trans hu))
  rintro interfaces u ⟨hu, htu, hinterfacesKnown, hinterfacesTree⟩
  -- the base type is known before the interfaces are built, so it reads the same after that
  have hlater : base.map u.tree = base.map t.tree :=
    Option.map_congr fun b hb => htu.keepsOutlines.tree_eq ht.wellFormed (hbaseKnown b hb)
  exact hnext base interfaces u hu (hst.trans htu)
    ⟨fun b hb => Nat.lt_of_lt_of_le (hbaseKnown b hb) htu.size_le, hlater.trans hbaseTree,
      hinterfacesKnown, hinterfacesTree⟩

end Instantiates

/-- Filling in the supertypes of an instantiation makes it coherent, and it need no longer be
pending. -/
theorem substituteSupertypes_ends (happly : Applies pending' apply) (hs : s.Consistent pending')
    (hpending : ∀ other, pending' other → pending other ∨ other = type)
    (ho : ∃ args isOpen, s.origin? type = some (.instantiation definition args isOpen)) :
    (substituteSupertypes apply definition type).Ends s
      (fun _ t => t.Consistent pending ∧ ∃ u base interfaces, s.Builds u ∧
        t = u.setSupertypes type base interfaces)
      fun t => s.Builds t := by
  obtain ⟨args, isOpen, ho⟩ := ho
  obtain ⟨d, g, hi, -⟩ := hs.wellFormed.instantiates ho
  refine Ends.bind (ends_descriptor_of_get? hi.definition_eq ?_)
  refine Ends.bind (ends_descriptor_of_get? hi.type_eq ?_)
  refine hi.replaceSupertypes_ends happly hs ?_ fun _ => id
  intro base interfaces u hu hsu hreplaced
  exact ends_modify ⟨hi.consistent_setSupertypes hs.wellFormed hsu hu hpending hreplaced,
    u, base, interfaces, hsu, rfl⟩

/-! ## Registering an instantiation -/

section Register

variable {g : Descriptor} {isOpen : Bool}

theorem get?_register (other : TypeId) :
    (s.register g definition args isOpen).get? other =
      if other = s.size then
        some (.bare g.name g.qualifier g.kind g.modifiers (.instantiation definition args isOpen))
      else s.get? other :=
  s.get?_push _ other

@[simp] theorem size_register : (s.register g definition args isOpen).size = s.size + 1 :=
  s.size_push _

theorem instantiations_register (key : TypeId × List TypeId) :
    (s.register g definition args isOpen).instantiations[key]? =
      if key = (definition, args) then some s.size else s.instantiations[key]? := by
  show (s.instantiations.insert (definition, args) s.size)[key]? = _
  rw [Std.ExtTreeMap.getElem?_insert]
  refine if_congr ?_ rfl rfl
  rw [Std.LawfulEqCmp.compare_eq_iff_eq]
  exact eq_comm

/-- Registering a new instantiation is growth. -/
theorem Closed.builds_register (hs : s.Closed)
    (hnew : s.instantiations[(definition, args)]? = none) :
    s.Builds (s.register g definition args isOpen) := by
  constructor
  · refine ⟨?_, .refl _⟩
    show (s.register g definition args isOpen).rollback s.size = s
    have hsame : (s.register g definition args isOpen).rollback s.size = s.rollback s.size := by
      simp only [rollback, register, push, mk.injEq, and_true, true_and]
      constructor
      · simp [size, Array.take_eq_extract]
      · refine filter_insert_of_not hnew ?_
        simp
    rw [hsame, hs.rollback_size]
  · intro other hle hlt
    have heq : other = s.size := by
      rw [size_register] at hlt
      exact Nat.eq_of_le_of_lt_succ hle hlt
    refine ⟨definition, args, isOpen, ?_⟩
    rw [origin?, get?_register, if_pos heq]
    rfl

theorem Closed.register (hs : s.Closed) (hdefinition : definition < s.size)
    (hargs : ∀ arg ∈ args, arg < s.size) : (s.register g definition args isOpen).Closed := by
  have hlt : ∀ {other : TypeId}, other < s.size →
      other < (s.register g definition args isOpen).size := fun h => by
    rw [size_register]
    exact Nat.lt_succ_of_lt h
  constructor
  · intro key types hkey
    obtain ⟨hne, htypes⟩ := hs.simpleNames key types hkey
    exact ⟨hne, fun other hother => hlt (htypes other hother)⟩
  · exact fun key other hkey => hlt (hs.qualifiedNames key other hkey)
  · exact fun key other hkey => hlt (hs.aliases key other hkey)
  · exact fun key other hkey => hlt (hs.keywords key other hkey)
  · intro key other hkey
    rw [instantiations_register] at hkey
    split at hkey
    · next heq =>
      cases heq
      cases hkey
      refine ⟨hlt hdefinition, ?_, fun arg harg => hlt (hargs arg harg)⟩
      rw [size_register]
      exact Nat.lt_succ_self _
    · obtain ⟨hkey₁, hother, hkey₂⟩ := hs.instantiations key other hkey
      exact ⟨hlt hkey₁, hlt hother, fun arg harg => hlt (hkey₂ arg harg)⟩
  · exact fun key other hkey => hlt (hs.freeParameters key other hkey)

/-- A new instantiation is sound before it has supertypes. -/
theorem WellFormed.register (hs : s.WellFormed) (hg : s.get? definition = some g)
    (hparams : g.origin = .definition params) (hlength : params.length = args.length)
    (hne : params ≠ args) (hargs : ∀ arg ∈ args, arg < s.size)
    (hnew : s.instantiations[(definition, args)]? = none) :
    (s.register g definition args (args.any s.isOpen)).WellFormed := by
  have hbuilds : s.Builds (s.register g definition args (args.any s.isOpen)) :=
    hs.closed.builds_register hnew
  have hkeeps := hbuilds.keepsOutlines
  have hdefinition := lt_of_get? hg
  have hsize : (s.register g definition args (args.any s.isOpen)).origin? s.size =
      some (.instantiation definition args (args.any s.isOpen)) := by
    rw [origin?, get?_register, if_pos rfl]
    rfl
  have hlast : ∀ other, s.size ≤ other →
      other < (s.register g definition args (args.any s.isOpen)).size → other = s.size := by
    intro other hle hlt
    rw [size_register] at hlt
    exact Nat.eq_of_le_of_lt_succ hle hlt
  refine hs.extend (fun other h => hbuilds.grows.get?_eq h) hkeeps
    (hs.closed.register hdefinition hargs) ?_ ?_ (fun name other h => .inl h) rfl
    (hs.names.later hkeeps rfl rfl rfl ?_)
  · intro other d hle hd
    have heq := hlast other hle (lt_of_get? hd)
    rw [get?_register, if_pos heq] at hd
    cases hd
    refine SoundOrigin.soundAt ?_ rfl rfl
    have hkind : g.kind ≠ .parameter := mt (hs.kind_parameter_iff hg).mp (by simp [hparams])
    refine ⟨hkind, heq ▸ hdefinition, heq ▸ hargs, ⟨params, ?_, hlength, hne⟩, ?_, ?_, ?_⟩
    · rw [hkeeps.origin?_eq hdefinition, origin?_of_get? hg, hparams]
    · refine ⟨{ g with base := none, interfaces := [] }, ?_, rfl, rfl, rfl, rfl⟩
      rw [hkeeps.outline definition hdefinition, outline?, hg]
      rfl
    · rw [Bool.eq_iff_iff, List.any_eq_true, List.any_eq_true]
      exact exists_congr fun arg => and_congr_right fun harg => by
        rw [hkeeps.isOpen_eq (hargs arg harg)]
    · rw [instantiations_register, if_pos rfl, heq]
  · intro generic inner other hother
    rw [instantiations_register] at hother
    split at hother
    · next heq =>
      cases heq
      cases hother
      exact .inr ⟨_, hsize⟩
    · exact .inl hother
  · intro other o hle ho
    rw [hlast other hle (lt_of_origin? ho), hsize] at ho
    cases ho
    rfl

/-- Registering makes a new type pending. -/
theorem Consistent.register (hs : s.Consistent pending) (hg : s.get? definition = some g)
    (hparams : g.origin = .definition params) (hlength : params.length = args.length)
    (hne : params ≠ args) (hargs : ∀ arg ∈ args, arg < s.size)
    (hnew : s.instantiations[(definition, args)]? = none) :
    (s.register g definition args (args.any s.isOpen)).Consistent
      fun other => pending other ∨ other = s.size := by
  have hbuilds : s.Builds (s.register g definition args (args.any s.isOpen)) :=
    hs.wellFormed.closed.builds_register hnew
  refine hs.grow hbuilds.grows (hs.wellFormed.register hg hparams hlength hne hargs hnew)
    (fun _ => .inl) ?_
  intro other hle hlt hnot
  rw [size_register] at hlt
  exact absurd (.inr (Nat.eq_of_le_of_lt_succ hle hlt)) hnot

end Register

/-! ## Applying a definition -/

/-- Looking up the descriptors of the arguments tells whether they are known and open. -/
theorem ends_describe :
    (args.mapM fun arg => Build.ask (·.descriptor arg)).Ends s
      (fun described t => t = s ∧ (∀ arg ∈ args, arg < s.size) ∧
        described.any Descriptor.isOpen = args.any s.isOpen)
      fun t => t = s := by
  have hrun : (args.mapM fun arg => Build.ask (·.descriptor arg)).Ends s
      (fun described t => t = s ∧ t = s ∧
        List.Forall₂ (fun arg d => s.get? arg = some d) args described)
      fun t => t = s := by
    refine Build.ends_mapM (fun _ t => t = s) (fun t ht => ht) (fun _ h => h)
      (fun _ _ _ _ _ _ h => h) rfl ?_
    rintro arg - t rfl -
    exact ends_descriptor (fun d hd => ⟨rfl, rfl, hd⟩) rfl
  refine hrun.mono ?_ fun _ => id
  rintro described t ⟨rfl, -, hall⟩
  refine ⟨rfl, ?_⟩
  clear hrun
  induction hall with
  | nil => exact ⟨by simp, rfl⟩
  | cons hd _ ih =>
    obtain ⟨hknown, hopen⟩ := ih
    refine ⟨List.forall_mem_cons.mpr ⟨lt_of_get? hd, hknown⟩, ?_⟩
    rw [List.any_cons, List.any_cons, hopen, isOpen, hd]
    rfl

/-- Every bound on the levels gives an operation that applies definitions to arguments, whatever
types are pending. The new type is pending itself until its supertypes are filled in. -/
theorem instantiateWithin_applies (levels : Nat) :
    ∀ pending, Applies pending (instantiateWithin levels) := by
  -- one level less is left for the supertypes of the new type, which is pending meanwhile
  induction levels with
  | zero =>
    intro pending s definition args hs
    have hrefl := hs.wellFormed.closed.builds_refl
    rw [instantiateWithin]
    exact Ends.bind (ends_get (ends_throw hrefl))
  | succ levels ih =>
    intro pending s definition args hs
    have hwf := hs.wellFormed
    have hrefl := hwf.closed.builds_refl
    rw [instantiateWithin]
    refine Ends.bind (ends_descriptor ?_ hrefl)
    intro g hg
    cases hparams : g.origin with
    | declared | instantiation _ _ _ | typeParameter _ _ | methodParameter =>
      exact Ends.bind (ends_get (ends_throw hrefl))
    | definition params =>
      have ho : s.origin? definition = some (.definition params) := by
        rw [origin?_of_get? hg, hparams]
      dsimp only
      split
      · exact Ends.bind (ends_get (ends_throw hrefl))
      next hlength =>
      split
      · next heq =>
        subst heq
        have htree : s.tree definition = .node definition (params.map s.tree) := by
          rw [tree_definition ho, hwf.map_tree_parameters ho]
        exact ends_pure (htree ▸ hs.reaches_self (lt_of_get? hg))
      next hne =>
      refine Ends.bind (ends_describe.mono ?_ fun t ht => ht ▸ hrefl)
      rintro described t ⟨rfl, hargs, hopen⟩
      refine Ends.bind (ends_get ?_)
      split
      · next existing hexisting =>
        obtain ⟨isOpen, hexists⟩ := hwf.registered definition args existing hexisting
        have htree := hwf.tree_instantiation hexists
        exact ends_pure (htree ▸ hs.reaches_self (lt_of_origin? hexists))
      next hnew =>
      rw [hopen]
      refine Ends.bind (ends_set ?_)
      have hbuilds : t.Builds (t.register g definition args (args.any t.isOpen)) :=
        hwf.closed.builds_register hnew
      have hsize : (t.register g definition args (args.any t.isOpen)).origin? t.size =
          some (.instantiation definition args (args.any t.isOpen)) := by
        rw [origin?, get?_register, if_pos rfl]
        rfl
      have hregistered := hs.register hg hparams (not_not.mp hlength) hne hargs hnew
      refine Ends.bind ((substituteSupertypes_ends (ih _) hregistered (fun _ => id)
        ⟨_, _, hsize⟩).mono ?_ fun u hu => hbuilds.trans hu)
      rintro - u ⟨hu, v, base, interfaces, hv, rfl⟩
      refine ends_pure ?_
      have hall := (hbuilds.trans hv).setSupertypes (Nat.le_refl t.size) base interfaces
      have horigin := (v.keepsOutlines_setSupertypes t.size base interfaces).origin?_some
        (hv.keepsOutlines.origin?_some hsize)
      exact ⟨hu, hall, lt_of_origin? horigin, hu.wellFormed.tree_instantiation horigin⟩

/-! ## The operations as a whole -/

/-- Instantiating reaches the definition with the arguments, or leaves the store unchanged. -/
theorem instantiate_ends (hs : s.Consistent pending) :
    (instantiate definition args).Ends s
      (fun result t => s.Reaches pending (.node definition (args.map t.tree)) result t)
      fun t => s.UnchangedButNames t :=
  Build.ends_atomic ((instantiateWithin_applies _ pending s definition args hs).mono
    (fun _ _ => id) fun _ ht => ht.grows)

/-- The nullable form of a type is the nullable definition applied to it. -/
theorem nullableForm_ends (hs : s.Consistent pending) :
    (nullableForm type).Ends s
      (fun result t => ∃ nullable, s.roles.nullable = some nullable ∧
        s.Reaches pending (.node nullable [t.tree type]) result t)
      fun t => s.UnchangedButNames t := by
  refine Ends.bind (ends_get ?_)
  split
  · next nullable hnullable =>
    exact (instantiate_ends hs).mono (fun result t ht => ⟨nullable, hnullable, ht⟩) fun _ => id
  · exact ends_throw (.refl s)

end NominalTypes.Store
