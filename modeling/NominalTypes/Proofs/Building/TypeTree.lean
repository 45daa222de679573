import NominalTypes.Proofs.Building.WellFormed
import NominalTypes.Store.Instantiate

/-!
# Types as trees

A handle stands for a tree: the declared type behind it, applied to the trees of its arguments. A
definition stands for itself applied to its own parameters. Substitution is an operation on trees,
and a well-formed store has one handle for a tree at most.

- `TypeTree`, `TypeTree.subst`, `TypeTree.leaves`.
- `Store.tree`: the tree that a type stands for. Later stores read the old types as the same trees
  (`Store.KeepsOutlines.tree_eq`).
- `Store.WellFormed.tree_injective`: types with the same tree are equal.
- `Store.WellFormed.isOpen_iff`: the flag of open types tells whether a parameter is among the
  leaves.
-/

namespace NominalTypes

/-- A type expression whose names are handles. -/
inductive TypeTree where
  /-- A type that is not generic, or a generic parameter. -/
  | leaf (type : TypeId)
  /-- A generic definition applied to arguments. -/
  | node (definition : TypeId) (args : List TypeTree)

namespace TypeTree

/-- All leaves replaced at the same time; a leaf to which nothing is assigned stays. -/
def subst (assignment : TypeId → Option TypeTree) : TypeTree → TypeTree
  | .leaf type => (assignment type).getD (.leaf type)
  | .node definition args => .node definition (args.map (subst assignment))

/-- The leaves from left to right. -/
def leaves : TypeTree → List TypeId
  | .leaf type => [type]
  | .node _ args => args.flatMap leaves

/-- The declared type at the top. -/
def head : TypeTree → TypeId
  | .leaf type => type
  | .node definition _ => definition

/-- A substitution that assigns nothing to any leaf changes nothing. -/
theorem subst_eq_self (assignment : TypeId → Option TypeTree) :
    ∀ t : TypeTree, (∀ leaf ∈ t.leaves, assignment leaf = none) → t.subst assignment = t
  | .leaf type, h => by
    rw [subst, h type (by simp [leaves])]
    rfl
  | .node definition args, h => by
    have hargs : ∀ arg ∈ args, arg.subst assignment = arg := by
      intro arg harg
      refine subst_eq_self assignment arg fun leaf hleaf => h leaf ?_
      rw [leaves]
      exact List.mem_flatMap.mpr ⟨arg, harg, hleaf⟩
    rw [subst, List.map_congr_left hargs, List.map_id']

/-- A substitution leaves the top of a tree alone, unless the tree is a leaf that it assigns. -/
theorem head_subst (assignment : TypeId → Option TypeTree) {t : TypeTree}
    (h : ∀ type, t = .leaf type → assignment type = none) :
    (t.subst assignment).head = t.head := by
  cases t with
  | leaf type => rw [subst, h type rfl]; rfl
  | node definition args => rw [subst]; rfl

end TypeTree

namespace Store

/-- The tree that a type stands for. The arguments of an instantiation are older than itself. -/
def tree (s : Store) (type : TypeId) : TypeTree :=
  match s.origin? type with
  | some (.definition params) => .node type (params.map .leaf)
  | some (.instantiation definition args _) =>
    .node definition (args.map fun arg => if arg < type then s.tree arg else .leaf arg)
  | _ => .leaf type
termination_by type

/-- The trees that take the place of parameters. -/
def assignment (s : Store) (params args : List TypeId) (param : TypeId) : Option TypeTree :=
  (assigned? params args param).map s.tree

variable {s t : Store} {type : TypeId}

/-! ## The tree of a type by its origin -/

theorem tree_definition {params : List TypeId} (ho : s.origin? type = some (.definition params)) :
    s.tree type = .node type (params.map .leaf) := by
  rw [tree, ho]

/-- A type that is not generic is a leaf. -/
theorem tree_leaf (h : s.definitionOf? type = none) : s.tree type = .leaf type := by
  rw [definitionOf?_eq_origin?] at h
  rw [tree]
  split
  · next ho =>
    rw [ho] at h
    cases h
  · next ho =>
    rw [ho] at h
    cases h
  · rfl

theorem tree_typeParameter {declaring : TypeId} {position : Nat}
    (ho : s.origin? type = some (.typeParameter declaring position)) :
    s.tree type = .leaf type := tree_leaf (by rw [definitionOf?_eq_origin?, ho])

/-- Only a type that is a leaf itself reads as a leaf. -/
theorem eq_of_tree_eq_leaf {leaf : TypeId} (h : s.tree type = .leaf leaf) : type = leaf := by
  rw [tree] at h
  split at h
  · cases h
  · cases h
  · cases h
    rfl

theorem head_tree (s : Store) (type : TypeId) : (s.tree type).head = s.head type := by
  unfold head
  rw [definitionOf?_eq_origin?, tree]
  cases s.origin? type with
  | none => rfl
  | some o => cases o <;> rfl

namespace WellFormed

theorem tree_instantiation (hs : s.WellFormed) {definition : TypeId} {args : List TypeId}
    {isOpen : Bool} (ho : s.origin? type = some (.instantiation definition args isOpen)) :
    s.tree type = .node definition (args.map s.tree) := by
  obtain ⟨d, -, hsound⟩ := hs.instantiation ho
  rw [tree, ho]
  dsimp only
  congr 1
  refine List.map_congr_left fun arg harg => ?_
  rw [if_pos (hsound.args_lt arg harg)]

/-- The parameters of a definition are leaves. -/
theorem map_tree_parameters (hs : s.WellFormed) {params : List TypeId}
    (ho : s.origin? type = some (.definition params)) : params.map s.tree = params.map .leaf := by
  refine List.map_congr_left fun param hparam => ?_
  obtain ⟨position, horigin⟩ := hs.parameter_origin? ho hparam
  exact tree_typeParameter horigin

theorem args_known (hs : s.WellFormed) {definition : TypeId} {args : List TypeId} {isOpen : Bool}
    (ho : s.origin? type = some (.instantiation definition args isOpen)) {arg : TypeId}
    (harg : arg ∈ args) : arg < type ∧ arg < s.size := by
  obtain ⟨d, -, hsound⟩ := hs.instantiation ho
  exact ⟨hsound.args_lt arg harg, Nat.lt_trans (hsound.args_lt arg harg) (lt_of_origin? ho)⟩

end WellFormed

namespace WellFormed

/-- The arguments of a type are known. -/
theorem arguments_lt (hs : s.WellFormed) {d : Descriptor} (hd : s.get? type = some d) :
    ∀ arg ∈ d.arguments, arg < s.size := by
  intro arg harg
  have ho := origin?_of_get? hd
  unfold Descriptor.arguments at harg
  split at harg
  · next params horigin =>
    rw [horigin] at ho
    obtain ⟨position, hposition⟩ := hs.parameter_origin? ho harg
    exact lt_of_origin? hposition
  · next generic args isOpen horigin =>
    rw [horigin] at ho
    exact (hs.args_known ho harg).2
  · cases harg

/-- A generic type reads as its definition applied to its arguments. -/
theorem tree_generic (hs : s.WellFormed) {d : Descriptor} {definition : TypeId}
    (hd : s.get? type = some d) (hdefinition : s.definitionOf? type = some definition) :
    s.tree type = .node definition (d.arguments.map s.tree) := by
  have ho := origin?_of_get? hd
  rw [definitionOf?_eq_origin?, ho] at hdefinition
  unfold Descriptor.arguments
  split at hdefinition
  · next params horigin =>
    cases hdefinition
    rw [Option.some.inj horigin] at ho ⊢
    rw [tree_definition ho, hs.map_tree_parameters ho]
  · next generic args isOpen horigin =>
    cases hdefinition
    rw [Option.some.inj horigin] at ho ⊢
    exact hs.tree_instantiation ho
  · cases hdefinition

/-- What reads as a definition applied to arguments is a generic type. -/
theorem of_tree_eq_node (hs : s.WellFormed) (htype : type < s.size) {definition : TypeId}
    {trees : List TypeTree} (h : s.tree type = .node definition trees) :
    ∃ d, s.get? type = some d ∧ s.definitionOf? type = some definition ∧
      d.arguments.map s.tree = trees := by
  obtain ⟨d, hd⟩ := exists_get? htype
  cases hdefinition : s.definitionOf? type with
  | none =>
    rw [tree_leaf hdefinition] at h
    cases h
  | some definition' =>
    rw [hs.tree_generic hd hdefinition] at h
    cases h
    exact ⟨d, hd, rfl, rfl⟩

end WellFormed

/-- Known types read as the same trees later on. -/
theorem KeepsOutlines.tree_eq (h : s.KeepsOutlines t) (hs : s.WellFormed) (htype : type < s.size) :
    t.tree type = s.tree type := by
  induction type using Nat.strongRecOn with
  | ind type ih =>
    have horigin := h.origin?_eq htype
    cases ho : s.origin? type with
    | none => rw [tree, tree, horigin, ho]
    | some o =>
      rw [ho] at horigin
      cases o with
      | definition params => rw [tree_definition ho, tree_definition horigin]
      | declared | typeParameter _ _ | methodParameter => rw [tree, tree, horigin, ho]
      | instantiation definition args isOpen =>
        rw [tree, tree, horigin, ho]
        dsimp only
        congr 1
        refine List.map_congr_left fun arg harg => ?_
        obtain ⟨hlt, hknown⟩ := hs.args_known ho harg
        rw [if_pos hlt, if_pos hlt, ih arg hlt hknown]

/-! ## One type for a tree -/

/-- Lists whose entries agree pairwise in one respect agree in every respect that follows from
it. -/
theorem map_eq_of_map_eq {α β γ δ : Type} {f : α → γ} {f' : β → γ} {g : α → δ} {g' : β → δ} :
    ∀ {as : List α} {bs : List β}, (∀ a ∈ as, ∀ b ∈ bs, f a = f' b → g a = g' b) →
      as.map f = bs.map f' → as.map g = bs.map g'
  | [], [], _, _ => rfl
  | [], _ :: _, _, h => by cases h
  | _ :: _, [], _, h => by cases h
  | a :: as, b :: bs, himp, h => by
    obtain ⟨hhead, htail⟩ := List.cons.inj h
    have hab : g a = g' b := himp a List.mem_cons_self b List.mem_cons_self hhead
    have hrest : as.map g = bs.map g' := map_eq_of_map_eq
      (fun a' ha' b' hb' => himp a' (List.mem_cons_of_mem _ ha') b' (List.mem_cons_of_mem _ hb'))
      htail
    rw [List.map_cons, List.map_cons, hab, hrest]

theorem eq_of_map_eq {α β : Type} {f : α → β} {as bs : List α}
    (hinj : ∀ a ∈ as, ∀ b ∈ bs, f a = f b → a = b) (h : as.map f = bs.map f) : as = bs := by
  have hid : as.map id = bs.map id := map_eq_of_map_eq hinj h
  rwa [List.map_id, List.map_id] at hid

namespace WellFormed

/-- A definition and one of its instantiations do not read as the same tree, for the arguments of
the instantiation are not the parameters. -/
theorem tree_ne_of_definition (hs : s.WellFormed) {other : TypeId} {params args : List TypeId}
    {definition : TypeId} {isOpen : Bool} (ho : s.origin? type = some (.definition params))
    (ho' : s.origin? other = some (.instantiation definition args isOpen)) :
    s.tree type ≠ s.tree other := by
  -- the trees can only agree on the parameters, which are leaves and so equal to their arguments
  rw [tree_definition ho, hs.tree_instantiation ho']
  intro heq
  obtain ⟨rfl, hargs⟩ := TypeTree.node.inj heq
  obtain ⟨d, -, hsound⟩ := hs.instantiation ho'
  obtain ⟨params', hparams', -, hne⟩ := hsound.parameters
  rw [ho] at hparams'
  cases hparams'
  refine hne (eq_of_map_eq (f := s.tree) ?_ ?_)
  · intro param hparam arg _ htree
    obtain ⟨position, hposition⟩ := hs.parameter_origin? ho hparam
    rw [tree_typeParameter hposition] at htree
    exact (eq_of_tree_eq_leaf htree.symm).symm
  · rw [hs.map_tree_parameters ho, hargs]

/-- Types that read as the same tree are equal. -/
theorem tree_injective (hs : s.WellFormed) {a b : TypeId} (ha : a < s.size) (hb : b < s.size)
    (h : s.tree a = s.tree b) : a = b := by
  -- instantiations with equal arguments are registered under the same key
  induction a using Nat.strongRecOn generalizing b with
  | ind a ih =>
    obtain ⟨d, hd⟩ := exists_get? ha
    have hoa := origin?_of_get? hd
    obtain ⟨d', hd'⟩ := exists_get? hb
    have hob := origin?_of_get? hd'
    cases ho : d.origin with
    | declared | typeParameter _ _ | methodParameter =>
      rw [ho] at hoa
      have hleaf : s.tree a = .leaf a := tree_leaf (by rw [definitionOf?_eq_origin?, hoa])
      rw [hleaf] at h
      exact (eq_of_tree_eq_leaf h.symm).symm
    | definition params =>
      rw [ho] at hoa
      cases ho' : d'.origin with
      | declared | typeParameter _ _ | methodParameter =>
        rw [ho'] at hob
        have hleaf : s.tree b = .leaf b := tree_leaf (by rw [definitionOf?_eq_origin?, hob])
        rw [hleaf] at h
        exact eq_of_tree_eq_leaf h
      | definition params' =>
        rw [ho'] at hob
        rw [tree_definition hoa, tree_definition hob] at h
        exact (TypeTree.node.inj h).1
      | instantiation definition args isOpen =>
        rw [ho'] at hob
        exact absurd h (hs.tree_ne_of_definition hoa hob)
    | instantiation definition args isOpen =>
      rw [ho] at hoa
      cases ho' : d'.origin with
      | declared | typeParameter _ _ | methodParameter =>
        rw [ho'] at hob
        have hleaf : s.tree b = .leaf b := tree_leaf (by rw [definitionOf?_eq_origin?, hob])
        rw [hleaf] at h
        exact eq_of_tree_eq_leaf h
      | definition params' =>
        rw [ho'] at hob
        exact absurd h.symm (hs.tree_ne_of_definition hob hoa)
      | instantiation definition' args' isOpen' =>
        rw [ho'] at hob
        rw [hs.tree_instantiation hoa, hs.tree_instantiation hob] at h
        obtain ⟨rfl, htrees⟩ := TypeTree.node.inj h
        have hargs : args = args' := eq_of_map_eq (fun x hx y hy hxy =>
          ih x (hs.args_known hoa hx).1 (hs.args_known hoa hx).2 (hs.args_known hob hy).2 hxy)
          htrees
        subst hargs
        obtain ⟨_, -, hsound⟩ := hs.instantiation hoa
        obtain ⟨_, -, hsound'⟩ := hs.instantiation hob
        exact Option.some.inj (hsound.registered.symm.trans hsound'.registered)

/-- A type is open exactly if a generic parameter is among the leaves of its tree. -/
theorem isOpen_iff (hs : s.WellFormed) (htype : type < s.size) :
    s.isOpen type = true ↔ ∃ leaf ∈ (s.tree type).leaves, s.isParameter leaf = true := by
  induction type using Nat.strongRecOn with
  | ind type ih =>
    obtain ⟨d, hd⟩ := exists_get? htype
    have ho := origin?_of_get? hd
    have hisOpen : s.isOpen type = (d.isParameter || d.hasOpenArguments) := by
      rw [isOpen, hd]
      rfl
    have hisParameter : s.isParameter type = d.isParameter := by
      rw [isParameter, hd]
      rfl
    cases horigin : d.origin with
    | declared | typeParameter _ _ | methodParameter =>
      rw [horigin] at ho
      have hleaf : s.tree type = .leaf type := tree_leaf (by rw [definitionOf?_eq_origin?, ho])
      rw [hisOpen, hleaf, TypeTree.leaves]
      simp [Descriptor.hasOpenArguments, horigin, hisParameter]
    | definition params =>
      rw [horigin] at ho
      obtain ⟨hne, -⟩ := hs.definition ho
      obtain ⟨param, hparam⟩ := List.exists_mem_of_ne_nil params hne
      rw [hisOpen, tree_definition ho, TypeTree.leaves]
      refine iff_of_true (by simp [Descriptor.hasOpenArguments, horigin]) ⟨param, ?_, ?_⟩
      · refine List.mem_flatMap.mpr ⟨.leaf param, List.mem_map_of_mem hparam, ?_⟩
        rw [TypeTree.leaves]
        exact List.mem_singleton.mpr rfl
      · exact hs.isParameter_of_mem ho hparam
    | instantiation definition args open' =>
      rw [horigin] at ho
      obtain ⟨d', hd', hsound⟩ := hs.instantiation ho
      have hnot : d.isParameter = false := by
        have hkind := mt (hs.kind_parameter_iff hd).mp (by simp [horigin])
        simpa [Descriptor.isParameter] using hkind
      rw [hisOpen, hnot, hs.tree_instantiation ho, TypeTree.leaves]
      simp only [Descriptor.hasOpenArguments, horigin, Bool.false_or, hsound.isOpen_eq,
        List.any_eq_true, List.mem_flatMap, List.mem_map]
      constructor
      · rintro ⟨arg, harg, hopen⟩
        obtain ⟨hlt, hknown⟩ := hs.args_known ho harg
        obtain ⟨leaf, hleaf, hparameter⟩ := (ih arg hlt hknown).mp hopen
        exact ⟨leaf, ⟨_, ⟨arg, harg, rfl⟩, hleaf⟩, hparameter⟩
      · rintro ⟨leaf, ⟨_, ⟨arg, harg, rfl⟩, hleaf⟩, hparameter⟩
        obtain ⟨hlt, hknown⟩ := hs.args_known ho harg
        exact ⟨arg, harg, (ih arg hlt hknown).mpr ⟨leaf, hleaf, hparameter⟩⟩

end WellFormed

end Store

end NominalTypes
