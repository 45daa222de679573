import NominalTypes.Proofs.History.Requests

/-!
# Two stores side by side

Two stores have grown from a common one by instantiations, and the second one has a type for every
tree that the first one has. The same request is made in both. As long as neither has an answer,
both register a new type and go on to its supertypes. Where the first one has an answer, so has the
second one. Where only the second one has, it is done, and all that the first one is still going to
build is there already: a type that it misses is not one whose supertypes are still to come, so the
second store has these too, and theirs.

- `Store.CoveredBy`: every tree of one store is there in the other.
- `Store.Beside`: two stores that have grown from a common one, with what ties them together.
- `Store.Beside.absorb_instantiateWithin`: what the second store has, the first one may build.
- `Store.Beside.instantiateWithin_carriesOver`: what the first store manages, the second one does
  too, within the same number of levels.
-/

namespace NominalTypes.Store

open Build (Ends CarriesOver carriesOver_pure carriesOver_mapM carriesOver_mapM_option ends_pure
  ends_throw ends_get ends_modify)

variable {pending : TypeId → Prop} {b s t u v : Store} {type definition : TypeId}
  {params args args' : List TypeId} {d d' g : Descriptor}
  {apply : TypeId → List TypeId → Build TypeId}

/-! ## What a store has -/

/-- Some type of the store reads as the tree. -/
def Has (s : Store) (tree : TypeTree) : Prop := ∃ type, type < s.size ∧ s.tree type = tree

/-- Every tree of the first store is there in the second one. -/
def CoveredBy (s t : Store) : Prop := ∀ type, type < s.size → t.Has (s.tree type)

theorem KeepsOutlines.has (h : s.KeepsOutlines t) (hs : s.WellFormed) {tree : TypeTree}
    (hhas : s.Has tree) : t.Has tree := by
  obtain ⟨type, htype, rfl⟩ := hhas
  exact ⟨type, Nat.lt_of_lt_of_le htype h.size_le, h.tree_eq hs htype⟩

namespace WellFormed

/-- A store has the arguments of what it has. -/
theorem has_of_mem (hs : s.WellFormed) {trees : List TypeTree}
    (h : s.Has (.node definition trees)) : ∀ tree ∈ trees, s.Has tree := by
  obtain ⟨type, htype, htree⟩ := h
  obtain ⟨d, hd, -, rfl⟩ := hs.of_tree_eq_node htype htree
  intro tree hmem
  obtain ⟨arg, harg, rfl⟩ := List.mem_map.mp hmem
  exact ⟨arg, hs.arguments_lt hd arg harg, rfl⟩

theorem builtFrom_of_has (hs : s.WellFormed) (h : s.Has (.node definition (args.map s.tree))) :
    ∃ type, s.BuiltFrom type definition args := by
  obtain ⟨type, htype, htree⟩ := h
  exact ⟨type, hs.builtFrom_of_tree_eq htype htree⟩

theorem has_of_builtFrom (hs : s.WellFormed) (h : s.BuiltFrom type definition args) :
    s.Has (.node definition (args.map s.tree)) := by
  obtain ⟨d, hd, hdefinition, rfl⟩ := h
  exact ⟨type, lt_of_get? hd, hs.tree_generic hd hdefinition⟩

end WellFormed

/-- A store has the supertypes of an instantiation that are not still to come. -/
theorem Consistent.has_image (hs : s.Consistent pending) {isOpen : Bool}
    (ho : s.origin? type = some (.instantiation definition args isOpen)) (hnot : ¬ pending type)
    (hg : s.get? definition = some g) :
    ∀ x ∈ g.supertypes, s.Has (s.image g.arguments args x) := by
  obtain ⟨d, hd, horigin, hsound⟩ := hs.wellFormed.sound_of_origin? ho
  obtain ⟨hbase, hinterfaces⟩ := hs.coherent type (lt_of_get? hd) hnot d g _ _ _ hd horigin hg
  intro x hx
  rcases Descriptor.mem_supertypes.mp hx with hxb | hxi
  · rw [hxb] at hbase
    obtain ⟨y, hy, htree⟩ := Option.map_eq_some_iff.mp hbase
    exact ⟨y, hsound.supertypes_lt (Descriptor.mem_supertypes_of_base hy), htree⟩
  · have hmem := List.mem_map_of_mem (f := s.image g.arguments args) hxi
    rw [← hinterfaces] at hmem
    obtain ⟨y, hy, htree⟩ := List.mem_map.mp hmem
    exact ⟨y, hsound.supertypes_lt (Descriptor.mem_supertypes_of_mem hy), htree⟩

/-- Filling in supertypes on the left changes no tree. -/
theorem CoveredBy.setSupertypes_left (h : s.CoveredBy t) (hs : s.WellFormed) (x : TypeId)
    (base : Option TypeId) (interfaces : List TypeId) :
    (s.setSupertypes x base interfaces).CoveredBy t := by
  intro type htype
  rw [size_setSupertypes] at htype
  rw [(s.keepsOutlines_setSupertypes x base interfaces).tree_eq hs htype]
  exact h type htype

/-- Neither does it on the right. -/
theorem CoveredBy.later (h : s.CoveredBy t) (ht : t.WellFormed) (hkeeps : t.KeepsOutlines u) :
    s.CoveredBy u := fun type htype => hkeeps.has ht (h type htype)

/-! ## Images in two stores -/

/-- What takes the place of parameters is found among the trees of the arguments. -/
theorem assignment_eq_lookup (s : Store) (params args : List TypeId) (param : TypeId) :
    s.assignment params args param = (params.zip (args.map s.tree)).lookup param := by
  unfold assignment assigned?
  induction params generalizing args with
  | nil => rfl
  | cons p params ih =>
    cases args with
    | nil => rfl
    | cons arg args =>
      rw [List.map_cons, List.zip_cons_cons, List.zip_cons_cons, List.lookup_cons,
        List.lookup_cons]
      split
      · rfl
      · exact ih args

theorem assignment_congr (h : args.map s.tree = args'.map t.tree) :
    s.assignment params args = t.assignment params args' := by
  funext param
  rw [assignment_eq_lookup, assignment_eq_lookup, h]

/-- Whether a parameter is assigned depends on the trees of the arguments alone. -/
theorem assigned?_eq_none_iff (h : args.map s.tree = args'.map t.tree) :
    assigned? params args type = none ↔ assigned? params args' type = none := by
  have hsame : s.assignment params args type = t.assignment params args' type := by
    rw [assignment_congr h]
  unfold assignment at hsame
  rw [← Option.map_eq_none_iff (f := s.tree), hsame, Option.map_eq_none_iff]

/-! ## Side by side -/

/-- Both stores have grown from the store `b` by instantiations, the second one covers the first
one, and the first one has every type whose supertypes are still to come in the second one. -/
structure Beside (b : Store) (pending : TypeId → Prop) (s t : Store) : Prop where
  origin : b.WellFormed
  left : s.Consistent fun _ => True
  right : t.Consistent pending
  fromLeft : b.Builds s
  fromRight : b.Builds t
  covered : s.CoveredBy t
  begun : ∀ type, pending type → type < t.size ∧ s.Has (t.tree type)

namespace Beside

theorem tree_eq (h : b.Beside pending s t) (htype : type < b.size) : s.tree type = t.tree type := by
  rw [h.fromLeft.keepsOutlines.tree_eq h.origin htype,
    h.fromRight.keepsOutlines.tree_eq h.origin htype]

theorem map_tree_eq (h : b.Beside pending s t) {types : List TypeId}
    (htypes : ∀ x ∈ types, x < b.size) : types.map s.tree = types.map t.tree :=
  List.map_congr_left fun x hx => h.tree_eq (htypes x hx)

/-- A type of the common store has the same image for arguments that read the same. -/
theorem image_eq (h : b.Beside pending s t) (htype : type < b.size)
    (hargs : args.map s.tree = args'.map t.tree) :
    s.image params args type = t.image params args' type := by
  rw [image, image, h.tree_eq htype, assignment_congr hargs]

/-- Lists that read the same are equal to a list of old types both or neither. -/
theorem eq_iff (h : b.Beside pending s t) (hargs : ∀ arg ∈ args, arg < s.size)
    (hargs' : ∀ arg ∈ args', arg < t.size) (hsame : args.map s.tree = args'.map t.tree)
    {types : List TypeId} (htypes : ∀ x ∈ types, x < b.size) : args = types ↔ args' = types := by
  have hmap := h.map_tree_eq htypes
  constructor
  · rintro rfl
    exact h.right.wellFormed.eq_of_map_tree_eq hargs' (hsame.symm.trans hmap)
  · rintro rfl
    exact h.left.wellFormed.eq_of_map_tree_eq hargs (hsame.trans hmap.symm)

/-- A generic definition is an old type, with one descriptor in all three stores. -/
theorem get?_definition (h : b.Beside pending s t)
    (ho : s.origin? definition = some (.definition params)) :
    definition < b.size ∧ s.get? definition = b.get? definition ∧
      t.get? definition = b.get? definition := by
  have hlt : definition < b.size := by
    by_contra hge
    obtain ⟨_, _, _, hnew⟩ := h.fromLeft.new definition (Nat.le_of_not_lt hge) (lt_of_origin? ho)
    rw [ho] at hnew
    cases hnew
  exact ⟨hlt, h.fromLeft.grows.get?_eq hlt, h.fromRight.grows.get?_eq hlt⟩

/-- The first store may go on alone, as long as it stays covered. -/
theorem advance_left (h : b.Beside pending s t) (hu : u.Consistent fun _ => True)
    (hsu : s.Builds u) (hcovered : u.CoveredBy t) : b.Beside pending u t where
  origin := h.origin
  left := hu
  right := h.right
  fromLeft := h.fromLeft.trans hsu
  fromRight := h.fromRight
  covered := hcovered
  begun type htype :=
    ⟨(h.begun type htype).1, hsu.keepsOutlines.has h.left.wellFormed (h.begun type htype).2⟩

/-- Both stores may go on. -/
theorem advance (h : b.Beside pending s t) (hu : u.Consistent fun _ => True) (hsu : s.Builds u)
    (hv : v.Consistent pending) (htv : t.Builds v) (hcovered : u.CoveredBy v) :
    b.Beside pending u v where
  origin := h.origin
  left := hu
  right := hv
  fromLeft := h.fromLeft.trans hsu
  fromRight := h.fromRight.trans htv
  covered := hcovered
  begun type htype := by
    obtain ⟨hlt, hhas⟩ := h.begun type htype
    refine ⟨Nat.lt_of_lt_of_le hlt htv.size_le, ?_⟩
    rw [htv.keepsOutlines.tree_eq h.right.wellFormed hlt]
    exact hsu.keepsOutlines.has h.left.wellFormed hhas

end Beside

/-! ## New types -/

/-- What a store does not have is new. -/
theorem IsNew.not_has (h : s.IsNew definition args g params) (hs : s.WellFormed) :
    ¬ s.Has (.node definition (args.map s.tree)) := by
  intro hhas
  obtain ⟨type, hbuilt⟩ := hs.builtFrom_of_has hhas
  obtain ⟨rfl, ho⟩ | ⟨isOpen, ho⟩ := builtFrom_iff.mp hbuilt
  · rw [origin?_of_get? h.definition_eq, h.parameters] at ho
    cases ho
    exact h.ne rfl
  · obtain ⟨_, -, hsound⟩ := hs.instantiation ho
    have hregistered := hsound.registered
    rw [h.unregistered] at hregistered
    cases hregistered

/-- A registered type is covered if its tree is there. -/
theorem IsNew.coveredBy (h : s.IsNew definition args g params) (hs : s.Consistent pending)
    (hcovered : s.CoveredBy t) (hhas : t.Has (.node definition (args.map s.tree))) :
    h.registered.CoveredBy t := by
  intro type htype
  rw [size_register] at htype
  by_cases hold : type < s.size
  · rw [(h.builds hs.wellFormed).keepsOutlines.tree_eq hs.wellFormed hold]
    exact hcovered type hold
  · obtain rfl := Nat.eq_of_lt_succ_of_not_lt htype hold
    rw [h.tree_eq hs]
    exact hhas

namespace Beside

/-- The supertypes of a type that the first store misses and the other one has are there in the
other one. They are not still to come, for then the type would have been begun in both. -/
theorem has_supertypes_of_isNew (h : b.Beside pending s t)
    (hnew : s.IsNew definition args g params)
    (hhas : t.Has (.node definition (args.map s.tree))) :
    ∀ x ∈ g.supertypes, x < b.size ∧ ∃ args', args.map s.tree = args'.map t.tree ∧
      t.Has (t.image g.arguments args' x) := by
  have hmissing := hnew.not_has h.left.wellFormed
  have ho : s.origin? definition = some (.definition params) := by
    rw [origin?_of_get? hnew.definition_eq, hnew.parameters]
  obtain ⟨hold, hleft, hright⟩ := h.get?_definition ho
  rw [hnew.definition_eq] at hleft
  rw [← hleft] at hright
  obtain ⟨type, htype, htree⟩ := hhas
  obtain ⟨d, hd, hdefinition, hargs⟩ := h.right.wellFormed.of_tree_eq_node htype htree
  have hnot : ¬ pending type := fun hpending => hmissing (htree ▸ (h.begun type hpending).2)
  obtain ⟨rfl, -⟩ | ⟨isOpen, hinstantiation⟩ := builtFrom_iff.mp ⟨d, hd, hdefinition, rfl⟩
  · -- the definition itself is an old type, which the first store has too
    exact absurd ⟨type, lt_of_get? hnew.definition_eq, (h.tree_eq hold).trans htree⟩ hmissing
  · intro x hx
    refine ⟨(h.origin.sound definition g hleft.symm).supertypes_lt hx, d.arguments, hargs.symm, ?_⟩
    exact h.right.has_image hinstantiation hnot hright x hx

end Beside

/-! ## Only the first store goes on -/

/-- From a store beside `t`, a request for what `t` has leads to a store that `t` covers. -/
def Absorbs (b : Store) (pending : TypeId → Prop) (t : Store)
    (apply : TypeId → List TypeId → Build TypeId) : Prop :=
  ∀ (s : Store) (definition : TypeId) (args : List TypeId), b.Beside pending s t →
    (∀ arg ∈ args, arg < s.size) → t.Has (.node definition (args.map s.tree)) →
    (apply definition args).Ends s (fun _ u => u.CoveredBy t) fun _ => True

namespace Beside

/-- An operation that reaches a type keeps the stores beside one another, as long as what it leaves
is covered. -/
theorem absorb_of_reaches (h : b.Beside pending u t) (hsu : s.Builds u) {operation : Build TypeId}
    {tree : TypeTree} (hcovered : operation.Ends u (fun _ v => v.CoveredBy t) fun _ => True)
    (hends : operation.Ends u (u.Reaches (fun _ => True) tree) fun v => u.Builds v) :
    operation.Ends u (fun _ v => b.Beside pending v t ∧ s.Builds v) fun _ => True :=
  (hends.and hcovered).mono
    (fun _ _ hv => ⟨h.advance_left hv.1.consistent hv.1.builds hv.2, hsu.trans hv.1.builds⟩)
    fun _ _ => trivial

/-- Replacing parameters builds only what the other store has, if it has the image. -/
theorem absorb_substitute (h : b.Beside pending s t) (happly : ∀ pending, Applies pending apply)
    (habsorbs : Absorbs b pending t apply) (hparams : ∀ p ∈ params, s.isParameter p = true)
    (hargs : ∀ arg ∈ args, arg < s.size) (htype : type < s.size)
    (hhas : t.Has (s.image params args type)) :
    (substitute apply params args type).Ends s (fun _ u => u.CoveredBy t) fun _ => True := by
  induction type using Nat.strongRecOn generalizing s with
  | ind type ih =>
    have hwf := h.left.wellFormed
    obtain ⟨d, hd⟩ := exists_get? htype
    have ho := origin?_of_get? hd
    cases harg : assigned? params args type with
    | some arg =>
      rw [substitute_of_assigned harg]
      exact ends_pure h.covered
    | none =>
    rcases d.hasOpenArguments_cases with hclosed | ⟨inner, horigin⟩ | ⟨definition, inner, horigin⟩
    · exact Ends.congr (ends_pure h.covered) (substitute_of_closed hd harg hclosed)
    · refine Ends.congr ?_ (substitute_definition hd harg horigin)
      rw [horigin] at ho
      rw [hwf.image_definition ho] at hhas
      split
      · exact ends_pure h.covered
      · exact habsorbs s _ _ h (hwf.replaced_lt ho hargs) hhas
    · refine Ends.congr ?_ (substitute_instantiation hwf hd harg horigin)
      rw [horigin] at ho
      rw [hwf.image_instantiation ho] at hhas
      have hknown : ∀ x ∈ inner, x < s.size := fun x hx => (hwf.args_known ho hx).2
      -- the other store has the image of every argument, whatever has been built so far
      have hinner : (inner.mapM (substitute apply params args)).Ends s
          (fun _ u => b.Beside pending u t ∧ s.Builds u) fun _ => True := by
        refine Build.ends_mapM_inv ⟨h, hwf.closed.builds_refl⟩ ?_
        rintro x hx u ⟨hu, hsu⟩
        have hkeeps := hsu.keepsOutlines
        have himage : t.Has (u.image params args x) := by
          rw [hkeeps.image_eq hwf (hknown x hx) hargs]
          exact h.right.wellFormed.has_of_mem hhas _ (List.mem_map_of_mem hx)
        exact hu.absorb_of_reaches hsu
          (ih x (hwf.args_known ho hx).1 hu (hkeeps.all_isParameter hparams)
            (hkeeps.all_lt hargs) (hkeeps.all_lt hknown x hx) himage)
          (hsu.substitute_ends hwf hu.left (happly _) hparams hargs (hknown x hx))
      refine Ends.bind ((hinner.and (substituteAll_ends (happly _) h.left hparams hargs
        hknown)).mono ?_ fun _ _ => trivial)
      rintro replaced u ⟨⟨hu, -⟩, -, -, hreplaced, htrees⟩
      split
      · exact ends_pure hu.covered
      · exact habsorbs u _ _ hu hreplaced (htrees ▸ hhas)

/-- So does filling in supertypes, if it has the images of all of them. -/
theorem absorb_substituteSupertypes (h : b.Beside pending s t)
    (happly : ∀ pending, Applies pending apply) (habsorbs : Absorbs b pending t apply)
    (hi : s.Instantiates type definition d g)
    (hhas : ∀ x ∈ g.supertypes, t.Has (s.image g.arguments d.arguments x)) :
    (substituteSupertypes apply definition type).Ends s (fun _ u => u.CoveredBy t)
      fun _ => True := by
  have hwf := h.left.wellFormed
  have hparams := hi.isParameter hwf
  have hargs := hi.args_lt hwf
  have hstep : ∀ x ∈ g.supertypes, ∀ u, b.Beside pending u t ∧ s.Builds u →
      (substitute apply g.arguments d.arguments x).Ends u
        (fun _ w => b.Beside pending w t ∧ s.Builds w) fun _ => True := by
    rintro x hx u ⟨hu, hsu⟩
    have hkeeps := hsu.keepsOutlines
    have hknown := (hwf.sound definition g hi.definition_eq).supertypes_lt hx
    have himage : t.Has (u.image g.arguments d.arguments x) := by
      rw [hkeeps.image_eq hwf hknown hargs]
      exact hhas x hx
    exact hu.absorb_of_reaches hsu
      (hu.absorb_substitute happly habsorbs (hkeeps.all_isParameter hparams)
        (hkeeps.all_lt hargs) (Nat.lt_of_lt_of_le hknown hsu.size_le) himage)
      (hsu.substitute_ends hwf hu.left (happly _) hparams hargs hknown)
  have hstart : b.Beside pending s t ∧ s.Builds s := ⟨h, hwf.closed.builds_refl⟩
  refine Ends.congr ?_ hi.substituteSupertypes_eq
  have hbase : (g.base.mapM (substitute apply g.arguments d.arguments)).Ends s
      (fun _ u => b.Beside pending u t ∧ s.Builds u) fun _ => True :=
    Build.ends_mapM_option (fun _ => hstart) fun x hx =>
      hstep x (Descriptor.mem_supertypes_of_base hx) s hstart
  refine Ends.bind (hbase.mono (fun base u hu => ?_) fun _ => id)
  have hinterfaces : (g.interfaces.mapM (substitute apply g.arguments d.arguments)).Ends u
      (fun _ w => b.Beside pending w t ∧ s.Builds w) fun _ => True :=
    Build.ends_mapM_inv hu fun x hx => hstep x (Descriptor.mem_supertypes_of_mem hx)
  refine Ends.bind (hinterfaces.mono (fun interfaces w hw => ?_) fun _ => id)
  exact ends_modify (hw.1.covered.setSupertypes_left hw.1.left.wellFormed type base interfaces)

/-- And so does a whole request. A type that the first store misses is not one whose supertypes are
still to come in the other one, which thus has them. -/
theorem absorb_instantiateWithin (levels : Nat) :
    Absorbs b pending t (instantiateWithin levels) := by
  induction levels with
  | zero =>
    intro s definition args h _ _
    rw [instantiateWithin]
    exact Ends.bind (ends_get (ends_throw trivial))
  | succ levels ih =>
    intro s definition args h hargs hhas
    have hwf := h.left.wellFormed
    obtain ⟨error, -, hrun⟩ | ⟨type, -, hrun⟩ | ⟨g, params, hnew⟩ :=
      hwf.instantiateWithin_cases levels hargs
    · exact Ends.congr (ends_throw trivial) hrun
    · exact Ends.congr (ends_pure h.covered) hrun
    refine Ends.congr ?_ (hnew.instantiateWithin_eq levels)
    have hcovered := hnew.coveredBy h.left h.covered hhas
    have hregistered : b.Beside pending hnew.registered t :=
      h.advance_left ((hnew.consistent h.left).weaken fun _ _ => trivial) (hnew.builds hwf) hcovered
    obtain ⟨d, hi, rfl⟩ := hnew.instantiates h.left
    refine Ends.bind ((hregistered.absorb_substituteSupertypes (instantiateWithin_applies levels) ih
      hi ?_).mono (fun _ _ hu => ends_pure hu) fun _ => id)
    intro x hx
    obtain ⟨hknown, args', hsame, himage⟩ := h.has_supertypes_of_isNew hnew hhas x hx
    rw [← (hnew.builds hwf).map_tree_eq hwf hargs] at hsame
    rwa [hregistered.image_eq hknown hsame]

end Beside

/-! ## Both stores go on -/

/-- If a request succeeds in a store, it succeeds in a store beside it, with arguments that read the
same, and what it leaves is covered again. -/
def CarriesOverBeside (b : Store) (apply : TypeId → List TypeId → Build TypeId) : Prop :=
  ∀ (pending : TypeId → Prop) (s t : Store) (definition : TypeId) (args args' : List TypeId),
    b.Beside pending s t → (∀ arg ∈ args, arg < s.size) → (∀ arg ∈ args', arg < t.size) →
    args.map s.tree = args'.map t.tree →
    (apply definition args).CarriesOver s (apply definition args') t fun _ u _ v => u.CoveredBy v

namespace Beside

/-- Operations that reach types keep stores beside one another, as long as what they leave is
covered. -/
theorem carriesOver_of_reaches (h : b.Beside pending u v) (hsu : s.Builds u) (htv : t.Builds v)
    {first second : Build TypeId} {tree tree' : TypeTree}
    (hcovered : first.CarriesOver u second v fun _ w _ z => w.CoveredBy z)
    (hfirst : first.Ends u (u.Reaches (fun _ => True) tree) fun w => u.Builds w)
    (hsecond : second.Ends v (v.Reaches pending tree') fun z => v.Builds z) :
    first.CarriesOver u second v fun _ w _ z =>
      b.Beside pending w z ∧ s.Builds w ∧ t.Builds z := by
  refine (hcovered.and hfirst hsecond).mono ?_
  rintro x w y z ⟨hwz, hw, hz⟩
  exact ⟨h.advance hw.consistent hw.builds hz.consistent hz.builds hwz, hsu.trans hw.builds,
    htv.trans hz.builds⟩

/-- Both sides keep a type whose arguments have not changed, or neither does. -/
theorem unlessSame_carriesOver (h : b.Beside pending s t) (hcarries : b.CarriesOverBeside apply)
    (hargs : ∀ arg ∈ args, arg < s.size) (hargs' : ∀ arg ∈ args', arg < t.size)
    (hsame : args.map s.tree = args'.map t.tree) {inner : List TypeId}
    (hinner : ∀ x ∈ inner, x < b.size) :
    (if args = inner then pure type else apply definition args : Build TypeId).CarriesOver s
      (if args' = inner then pure type else apply definition args' : Build TypeId) t
      fun _ u _ v => u.CoveredBy v := by
  have hiff := h.eq_iff hargs hargs' hsame hinner
  by_cases heq : args = inner
  · rw [if_pos heq, if_pos (hiff.mp heq)]
    exact carriesOver_pure h.covered
  · rw [if_neg heq, if_neg (mt hiff.mpr heq)]
    exact hcarries pending s t definition args args' h hargs hargs' hsame

/-- Replacing parameters in an old type. -/
theorem substitute_carriesOver (h : b.Beside pending s t)
    (happly : ∀ pending, Applies pending apply) (hcarries : b.CarriesOverBeside apply)
    (hparams : ∀ p ∈ params, b.isParameter p = true) (hargs : ∀ arg ∈ args, arg < s.size)
    (hargs' : ∀ arg ∈ args', arg < t.size) (hsame : args.map s.tree = args'.map t.tree)
    (htype : type < b.size) :
    (substitute apply params args type).CarriesOver s (substitute apply params args' type) t
      fun _ u _ v => u.CoveredBy v := by
  induction type using Nat.strongRecOn generalizing s t with
  | ind type ih =>
    have hleft := h.left.wellFormed
    have hright := h.right.wellFormed
    obtain ⟨d, hd⟩ := exists_get? htype
    have hds := (h.fromLeft.grows.get?_eq htype).trans hd
    have hdt := (h.fromRight.grows.get?_eq htype).trans hd
    have hnone : assigned? params args type = none ↔ assigned? params args' type = none :=
      assigned?_eq_none_iff hsame
    cases harg : assigned? params args type with
    | some arg =>
      obtain ⟨arg', harg'⟩ := Option.ne_none_iff_exists'.mp (mt hnone.mpr (by simp [harg]))
      rw [substitute_of_assigned harg, substitute_of_assigned harg']
      exact carriesOver_pure h.covered
    | none =>
    have harg' := hnone.mp harg
    rcases d.hasOpenArguments_cases with hclosed | ⟨inner, horigin⟩ | ⟨definition, inner, horigin⟩
    · exact (carriesOver_pure h.covered).congr (substitute_of_closed hds harg hclosed)
        (substitute_of_closed hdt harg' hclosed)
    · refine CarriesOver.congr ?_ (substitute_definition hds harg horigin)
        (substitute_definition hdt harg' horigin)
      have hob := origin?_of_get? hd
      have hos := origin?_of_get? hds
      have hot := origin?_of_get? hdt
      rw [horigin] at hob hos hot
      have himage : s.image params args type = t.image params args' type :=
        h.image_eq htype hsame
      rw [hleft.image_definition hos, hright.image_definition hot] at himage
      refine h.unlessSame_carriesOver hcarries (hleft.replaced_lt hos hargs)
        (hright.replaced_lt hot hargs') (TypeTree.node.inj himage).2 fun x hx => ?_
      exact lt_of_origin? (h.origin.parameter_origin? hob hx).choose_spec
    · refine CarriesOver.congr ?_ (substitute_instantiation hleft hds harg horigin)
        (substitute_instantiation hright hdt harg' horigin)
      have hob := origin?_of_get? hd
      rw [horigin] at hob
      have hknown : ∀ x ∈ inner, x < b.size := fun x hx => (h.origin.args_known hob hx).2
      have hknownLeft := h.fromLeft.keepsOutlines.all_lt hknown
      have hknownRight := h.fromRight.keepsOutlines.all_lt hknown
      have hparamsLeft := h.fromLeft.keepsOutlines.all_isParameter hparams
      have hparamsRight := h.fromRight.keepsOutlines.all_isParameter hparams
      -- argument by argument, both stores go on and stay beside one another
      have hinner : (inner.mapM (substitute apply params args)).CarriesOver s
          (inner.mapM (substitute apply params args')) t fun _ u _ v =>
            b.Beside pending u v ∧ s.Builds u ∧ t.Builds v := by
        refine carriesOver_mapM (fun u v => b.Beside pending u v ∧ s.Builds u ∧ t.Builds v)
          ⟨h, hleft.closed.builds_refl, hright.closed.builds_refl⟩ ?_
        rintro x hx u v ⟨huv, hsu, htv⟩
        have hsameLater : args.map u.tree = args'.map v.tree := by
          rw [hsu.map_tree_eq hleft hargs, htv.map_tree_eq hright hargs', hsame]
        exact huv.carriesOver_of_reaches hsu htv
          (ih x (h.origin.args_known hob hx).1 huv (hsu.keepsOutlines.all_lt hargs)
            (htv.keepsOutlines.all_lt hargs') hsameLater (hknown x hx))
          (hsu.substitute_ends hleft huv.left (happly _) hparamsLeft hargs (hknownLeft x hx))
          (htv.substitute_ends hright huv.right (happly _) hparamsRight hargs' (hknownRight x hx))
      refine CarriesOver.bind ((hinner.and
        (substituteAll_ends (happly _) h.left hparamsLeft hargs hknownLeft)
        (substituteAll_ends (happly _) h.right hparamsRight hargs' hknownRight)).mono ?_)
      rintro replaced u replaced' v
        ⟨⟨huv, -⟩, ⟨-, -, hreplaced, htrees⟩, -, -, hreplaced', htrees'⟩
      refine huv.unlessSame_carriesOver hcarries hreplaced hreplaced' ?_ hknown
      rw [htrees, htrees']
      exact List.map_congr_left fun x hx => h.image_eq (hknown x hx) hsame

/-- Filling in the supertypes of instantiations of one definition. -/
theorem substituteSupertypes_carriesOver (h : b.Beside pending s t)
    (happly : ∀ pending, Applies pending apply) (hcarries : b.CarriesOverBeside apply)
    {type' : TypeId} (hi : s.Instantiates type definition d g)
    (hi' : t.Instantiates type' definition d' g)
    (hsame : d.arguments.map s.tree = d'.arguments.map t.tree) :
    (substituteSupertypes apply definition type).CarriesOver s
      (substituteSupertypes apply definition type') t fun _ u _ v => u.CoveredBy v := by
  have hleft := h.left.wellFormed
  have hright := h.right.wellFormed
  have hos : s.origin? definition = some (.definition g.arguments) := by
    rw [origin?_of_get? hi.definition_eq, hi.parameters]
  obtain ⟨hdefinition, hget, -⟩ := h.get?_definition hos
  have hg : b.get? definition = some g := hget.symm.trans hi.definition_eq
  have hob := origin?_of_get? hg
  rw [hi.parameters] at hob
  have hparams : ∀ p ∈ g.arguments, b.isParameter p = true := fun p hp =>
    h.origin.isParameter_of_mem hob hp
  have hargs := hi.args_lt hleft
  have hargs' := hi'.args_lt hright
  have hstep : ∀ x ∈ g.supertypes, ∀ u v, b.Beside pending u v ∧ s.Builds u ∧ t.Builds v →
      (substitute apply g.arguments d.arguments x).CarriesOver u
        (substitute apply g.arguments d'.arguments x) v
        fun _ u' _ v' => b.Beside pending u' v' ∧ s.Builds u' ∧ t.Builds v' := by
    rintro x hx u v ⟨huv, hsu, htv⟩
    have hknown := (h.origin.sound definition g hg).supertypes_lt hx
    have hsameLater : d.arguments.map u.tree = d'.arguments.map v.tree := by
      rw [hsu.map_tree_eq hleft hargs, htv.map_tree_eq hright hargs', hsame]
    exact huv.carriesOver_of_reaches hsu htv
      (huv.substitute_carriesOver happly hcarries hparams (hsu.keepsOutlines.all_lt hargs)
        (htv.keepsOutlines.all_lt hargs') hsameLater hknown)
      (hsu.substitute_ends hleft huv.left (happly _) (hi.isParameter hleft) hargs
        (Nat.lt_of_lt_of_le hknown h.fromLeft.size_le))
      (htv.substitute_ends hright huv.right (happly _) (hi'.isParameter hright) hargs'
        (Nat.lt_of_lt_of_le hknown h.fromRight.size_le))
  refine CarriesOver.congr ?_ hi.substituteSupertypes_eq hi'.substituteSupertypes_eq
  refine CarriesOver.bind ((carriesOver_mapM_option
    (fun u v => b.Beside pending u v ∧ s.Builds u ∧ t.Builds v)
    ⟨h, hleft.closed.builds_refl, hright.closed.builds_refl⟩ fun x hx =>
      hstep x (Descriptor.mem_supertypes_of_base hx) s t
        ⟨h, hleft.closed.builds_refl, hright.closed.builds_refl⟩).mono ?_)
  intro base u base' v huv
  refine CarriesOver.bind ((carriesOver_mapM _ huv fun x hx =>
    hstep x (Descriptor.mem_supertypes_of_mem hx)).mono ?_)
  rintro interfaces w interfaces' z ⟨hwz, -⟩
  refine ends_modify (ends_modify ?_)
  exact (hwz.covered.setSupertypes_left hwz.left.wellFormed type base interfaces).later
    hwz.right.wellFormed (z.keepsOutlines_setSupertypes type' base' interfaces')

/-- Registering the same new type on both sides keeps the stores beside one another. -/
theorem register (h : b.Beside pending s t) (hnew : s.IsNew definition args g params)
    (hnew' : t.IsNew definition args' g params) (hsame : args.map s.tree = args'.map t.tree) :
    b.Beside (fun other => pending other ∨ other = t.size) hnew.registered hnew'.registered := by
  have hleft := h.left.wellFormed
  have hright := h.right.wellFormed
  have hbuilds := hnew.builds hleft
  have hbuilds' := hnew'.builds hright
  have htree := hnew.tree_eq h.left
  have htree' := hnew'.tree_eq h.right
  have hknown : s.size < hnew.registered.size := by
    rw [size_register]
    exact Nat.lt_succ_self _
  have hknown' : t.size < hnew'.registered.size := by
    rw [size_register]
    exact Nat.lt_succ_self _
  refine ⟨h.origin, (hnew.consistent h.left).weaken fun _ _ => trivial,
    hnew'.consistent h.right, h.fromLeft.trans hbuilds, h.fromRight.trans hbuilds', ?_, ?_⟩
  · refine hnew.coveredBy h.left (h.covered.later hright hbuilds'.keepsOutlines) ?_
    exact ⟨t.size, hknown', by rw [htree', hsame]⟩
  · rintro type (htype | rfl)
    · obtain ⟨hlt, hhas⟩ := h.begun type htype
      rw [hbuilds'.keepsOutlines.tree_eq hright hlt]
      exact ⟨Nat.lt_of_lt_of_le hlt hbuilds'.size_le, hbuilds.keepsOutlines.has hleft hhas⟩
    · exact ⟨hknown', s.size, hknown, by rw [htree, htree', hsame]⟩

/-- A request that is not refused at once by one of the stores is not refused by the other. -/
theorem misfit?_eq_none (h : b.Beside pending s t) (hsame : args.map s.tree = args'.map t.tree)
    (hfits : s.misfit? definition args = none) : t.misfit? definition args' = none := by
  obtain ⟨params, ho, hlength⟩ := misfit?_eq_none_iff.mp hfits
  obtain ⟨-, hget, hget'⟩ := h.get?_definition ho
  have hargs := congrArg List.length hsame
  rw [List.length_map, List.length_map] at hargs
  refine misfit?_eq_none_iff.mpr ⟨params, ?_, hlength.trans hargs⟩
  rw [origin?, hget', ← hget]
  exact ho

end Beside

/-- What the first of two stores manages within some levels, the second one does too. -/
theorem instantiateWithin_carriesOver (levels : Nat) :
    b.CarriesOverBeside (instantiateWithin levels) := by
  -- one level less is left on both sides for the supertypes of a type that is new to both
  induction levels with
  | zero =>
    intro pending s t definition args args' h _ _ _
    rw [instantiateWithin]
    exact Ends.bind (ends_get (ends_throw trivial))
  | succ levels ih =>
    intro pending s t definition args args' h hargs hargs' hsame
    have hleft := h.left.wellFormed
    have hright := h.right.wellFormed
    obtain ⟨error, -, hrun⟩ | ⟨type, hbuilt, hrun⟩ | ⟨g, params, hnew⟩ :=
      hleft.instantiateWithin_cases levels hargs
    · exact Ends.congr (ends_throw trivial) hrun
    · -- the other store has the type too
      obtain ⟨x, hx, htree⟩ := hleft.has_of_builtFrom hbuilt
      have hhas := h.covered x hx
      rw [htree, hsame] at hhas
      obtain ⟨type', hbuilt'⟩ := hright.builtFrom_of_has hhas
      exact (carriesOver_pure h.covered).congr hrun
        (Build.eq_of_ends (hright.instantiateWithin_of_builtFrom hbuilt' levels))
    have ho : s.origin? definition = some (.definition params) := by
      rw [origin?_of_get? hnew.definition_eq, hnew.parameters]
    have hfits : t.misfit? definition args' = none := h.misfit?_eq_none hsame
      (misfit?_eq_none_iff.mpr ⟨params, ho, hnew.length_eq⟩)
    obtain ⟨error, hmisfit, -⟩ | ⟨type', hbuilt', hrun'⟩ | ⟨g', params', hnew'⟩ :=
      hright.instantiateWithin_cases levels hargs'
    · rw [hfits] at hmisfit
      cases hmisfit
    · -- the other store has an answer at once, and all that the first one still builds
      have hhas := hright.has_of_builtFrom hbuilt'
      rw [← hsame] at hhas
      exact (Beside.absorb_instantiateWithin (levels + 1) s definition args h hargs hhas).mono
        (fun _ u hu => Ends.congr (ends_pure hu) hrun') fun _ => id
    · -- neither store has the type
      obtain ⟨-, hget, hget'⟩ := h.get?_definition ho
      obtain rfl : g' = g := Option.some.inj
        (hnew'.definition_eq.symm.trans (hget'.trans (hget.symm.trans hnew.definition_eq)))
      obtain rfl : params' = params :=
        Origin.definition.inj (hnew'.parameters.symm.trans hnew.parameters)
      refine CarriesOver.congr ?_ (hnew.instantiateWithin_eq levels)
        (hnew'.instantiateWithin_eq levels)
      have hregistered := h.register hnew hnew' hsame
      obtain ⟨d, hi, rfl⟩ := hnew.instantiates h.left
      obtain ⟨d', hi', rfl⟩ := hnew'.instantiates h.right
      refine CarriesOver.bind ((hregistered.substituteSupertypes_carriesOver
        (instantiateWithin_applies levels) ih hi hi' ?_).mono
          fun _ _ _ _ huv => carriesOver_pure huv)
      rw [(hnew.builds hleft).map_tree_eq hleft hargs,
        (hnew'.builds hright).map_tree_eq hright hargs', hsame]

end NominalTypes.Store
