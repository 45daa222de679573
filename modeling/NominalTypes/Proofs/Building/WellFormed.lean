import NominalTypes.Hierarchy.BaseChain
import NominalTypes.Proofs.Building.Outline

/-!
# Well-formed stores

What every store that has been built is like, and what it remains while a declaration is under way:
only supertypes of types may be missing then, and well-formedness does not ask for any.

- `Store.SoundOrigin`, `Store.SoundAt`: what holds of one type.
- `Store.NamesFit`: declared types are found by their names, and keywords that are shown stand for
  their types.
- `Store.WellFormed`: every type is sound, and the tables and roles fit the types.
- `Store.WellFormed.extend`: types may be added.
- `Store.WellFormed.setSupertypes`: supertypes may be filled in.
-/

namespace NominalTypes

/-- The type is built from a definition and is not the definition itself. -/
def Origin.isInstantiation : Origin → Bool
  | .instantiation .. => true
  | _ => false

/-- The type was declared under a name of its own. -/
def Origin.isDeclared : Origin → Bool
  | .declared | .definition _ => true
  | _ => false

/-! ## Supertypes -/

namespace Descriptor

variable {d : Descriptor} {type : TypeId}

theorem mem_supertypes : type ∈ d.supertypes ↔ d.base = some type ∨ type ∈ d.interfaces := by
  rw [supertypes, List.mem_append, Option.mem_toList]

theorem mem_supertypes_of_base (h : d.base = some type) : type ∈ d.supertypes :=
  mem_supertypes.mpr (.inl h)

theorem mem_supertypes_of_mem (h : type ∈ d.interfaces) : type ∈ d.supertypes :=
  mem_supertypes.mpr (.inr h)

theorem map_supertypes {α : Type} (f : TypeId → α) (d : Descriptor) :
    d.supertypes.map f = (d.base.map f).toList ++ d.interfaces.map f := by
  rw [supertypes, List.map_append]
  cases d.base <;> rfl

/-- What agrees on all supertypes maps the base type and the interfaces to the same. -/
theorem map_supertypes_congr (d : Descriptor) {α : Type} {f g : TypeId → α}
    (h : ∀ x ∈ d.supertypes, f x = g x) :
    d.base.map f = d.base.map g ∧ d.interfaces.map f = d.interfaces.map g :=
  ⟨Option.map_congr fun b hb => h b (mem_supertypes_of_base hb),
    List.map_congr_left fun i hi => h i (mem_supertypes_of_mem hi)⟩

end Descriptor

namespace Store

/-! ## Sound types -/

/-- What holds of an instantiation. It is younger than its definition and its arguments, looks like
its definition, and is the registered one for its definition and arguments, which are not the
parameters of the definition. -/
structure SoundInstantiation (s : Store) (type : TypeId) (d : Descriptor) (generic : TypeId)
    (args : List TypeId) (isOpen : Bool) : Prop where
  generic_lt : generic < type
  args_lt : ∀ arg ∈ args, arg < type
  parameters : ∃ params, s.origin? generic = some (.definition params) ∧
    params.length = args.length ∧ params ≠ args
  outline : ∃ g, s.outline? generic = some g ∧ d.name = g.name ∧ d.qualifier = g.qualifier ∧
    d.kind = g.kind ∧ d.modifiers = g.modifiers
  isOpen_eq : isOpen = args.any s.isOpen
  registered : s.instantiations[(generic, args)]? = some type

/-- The origin of a type fits its kind and the types that it mentions. The parameters of a
definition follow it at once. -/
def SoundOrigin (s : Store) (type : TypeId) (d : Descriptor) : Prop :=
  match d.origin with
  | .declared => d.kind ≠ .parameter
  | .definition params => d.kind ≠ .parameter ∧ params ≠ [] ∧
      ∀ position param, params[position]? = some param →
        param = type + 1 + position ∧ s.origin? param = some (.typeParameter type position)
  | .instantiation generic args isOpen =>
      d.kind ≠ .parameter ∧ s.SoundInstantiation type d generic args isOpen
  | .typeParameter declaring position => d.kind = .parameter ∧ declaring < type ∧
      ∃ params, s.origin? declaring = some (.definition params) ∧ params[position]? = some type
  | .methodParameter => d.kind = .parameter ∧ s.freeParameters[d.name]? = some type

/-- The origin of a type does not depend on its supertypes. -/
theorem SoundOrigin.withSupertypes {s : Store} {type : TypeId} {d : Descriptor}
    (h : s.SoundOrigin type d) (base : Option TypeId) (interfaces : List TypeId) :
    s.SoundOrigin type { d with base := base, interfaces := interfaces } := by
  unfold SoundOrigin at h ⊢
  dsimp only
  split
  · next ho => rwa [ho] at h
  · next ho => rwa [ho] at h
  · next ho =>
    rw [ho] at h
    exact ⟨h.1, h.2.1, h.2.2, h.2.3, h.2.4, h.2.5, h.2.6⟩
  · next ho => rwa [ho] at h
  · next ho => rwa [ho] at h

/-- What holds of a type of a store. A declared type is not older than the declared types behind its
supertypes, which were all there when it was declared. -/
structure SoundAt (s : Store) (type : TypeId) (d : Descriptor) : Prop where
  origin : s.SoundOrigin type d
  base : ∀ b, d.base = some b → s.kind? b = some .classType
  interfaces : ∀ i ∈ d.interfaces, s.kind? i = some .interface
  base_interface : d.kind = .interface → d.base = none
  supertypes_parameter : d.kind = .parameter → d.supertypes = []
  head_le : d.origin.isInstantiation = false → ∀ u ∈ d.supertypes, s.head u ≤ type

/-- A type without supertypes is sound if its origin is. -/
theorem SoundOrigin.soundAt {s : Store} {type : TypeId} {d : Descriptor} (h : s.SoundOrigin type d)
    (hbase : d.base = none) (hinterfaces : d.interfaces = []) : s.SoundAt type d := by
  have hsupertypes : d.supertypes = [] := by
    rw [Descriptor.supertypes, hbase, hinterfaces]
    rfl
  constructor
  · exact h
  · rw [hbase]
    exact fun b hb => (Option.not_mem_none b hb).elim
  · rw [hinterfaces]
    exact fun i hi => (List.not_mem_nil hi).elim
  · exact fun _ => hbase
  · exact fun _ => hsupertypes
  · rw [hsupertypes]
    exact fun _ u hu => (List.not_mem_nil hu).elim

/-- The supertypes of a sound type are known. -/
theorem SoundAt.supertypes_lt {s : Store} {type : TypeId} {d : Descriptor} (h : s.SoundAt type d)
    {u : TypeId} (hu : u ∈ d.supertypes) : u < s.size := by
  rcases Descriptor.mem_supertypes.mp hu with hbase | hinterface
  · exact lt_of_kind? (h.base u hbase)
  · exact lt_of_kind? (h.interfaces u hinterface)

namespace KeepsOutlines

variable {s t : Store} {type : TypeId} {d : Descriptor}

theorem outline?_some (h : s.KeepsOutlines t) {other : TypeId} {g : Descriptor}
    (hg : s.outline? other = some g) : t.outline? other = some g := by
  obtain ⟨g', hg', -⟩ := Option.map_eq_some_iff.mp hg
  exact (h.outline other (lt_of_get? hg')).trans hg

theorem soundInstantiation (h : s.KeepsOutlines t) (htype : type < s.size) {generic : TypeId}
    {args : List TypeId} {isOpen : Bool}
    (hs : s.SoundInstantiation type d generic args isOpen) :
    t.SoundInstantiation type d generic args isOpen where
  generic_lt := hs.generic_lt
  args_lt := hs.args_lt
  parameters := by
    obtain ⟨params, horigin, hrest⟩ := hs.parameters
    exact ⟨params, h.origin?_some horigin, hrest⟩
  outline := by
    obtain ⟨g, hg, hrest⟩ := hs.outline
    exact ⟨g, h.outline?_some hg, hrest⟩
  isOpen_eq := by
    rw [hs.isOpen_eq, Bool.eq_iff_iff, List.any_eq_true, List.any_eq_true]
    refine exists_congr fun arg => and_congr_right fun harg => ?_
    rw [h.isOpen_eq (Nat.lt_trans (hs.args_lt arg harg) htype)]
  registered := h.instantiations _ _ hs.registered

theorem soundOrigin (h : s.KeepsOutlines t) (htype : type < s.size)
    (hs : s.SoundOrigin type d) : t.SoundOrigin type d := by
  unfold SoundOrigin at hs ⊢
  split
  · next horigin => rwa [horigin] at hs
  · next params horigin =>
    rw [horigin] at hs
    refine ⟨hs.1, hs.2.1, fun position param hparam => ?_⟩
    obtain ⟨heq, ho⟩ := hs.2.2 position param hparam
    exact ⟨heq, h.origin?_some ho⟩
  · next generic args isOpen horigin =>
    rw [horigin] at hs
    exact ⟨hs.1, h.soundInstantiation htype hs.2⟩
  · next declaring position horigin =>
    rw [horigin] at hs
    obtain ⟨hkind, hlt, params, ho, hparams⟩ := hs
    exact ⟨hkind, hlt, params, h.origin?_some ho, hparams⟩
  · next horigin =>
    rw [horigin] at hs
    exact ⟨hs.1, h.freeParameters _ _ hs.2⟩

/-- A sound type remains sound as long as outlines are kept. -/
theorem soundAt (h : s.KeepsOutlines t) (htype : type < s.size) (hs : s.SoundAt type d) :
    t.SoundAt type d where
  origin := h.soundOrigin htype hs.origin
  base b hb := h.kind?_some (hs.base b hb)
  interfaces i hi := h.kind?_some (hs.interfaces i hi)
  base_interface := hs.base_interface
  supertypes_parameter := hs.supertypes_parameter
  head_le horigin u hu := by
    rw [h.head_eq (hs.supertypes_lt hu)]
    exact hs.head_le horigin u hu

end KeepsOutlines

/-! ## Well-formed stores -/

/-- The types that have a role are fit for it. -/
structure RolesFit (s : Store) : Prop where
  root : ∀ type, s.roles.root = some type →
    s.kind? type = some .classType ∧ s.origin? type = some .declared
  valueTypeRoot : ∀ type, s.roles.valueTypeRoot = some type →
    s.kind? type = some .classType ∧ s.origin? type = some .declared
  nullable : ∀ type, s.roles.nullable = some type →
    s.kind? type = some .valueType ∧ ∃ param, s.origin? type = some (.definition [param])

/-- A keyword by which a type is shown stands for this type, and declared types are found by their
qualified names. -/
structure NamesFit (s : Store) : Prop where
  keyword : ∀ (type : TypeId) (keyword : String), s.keywords[type]? = some keyword →
    s.aliases[keyword]? = some type
  declared : ∀ (type : TypeId) (d : Descriptor), s.outline? type = some d →
    d.origin.isDeclared = true → s.qualifiedNames[(d.qualifiedName, d.arity)]? = some type

theorem NamesFit.qualifiedNames_eq {s : Store} (hs : s.NamesFit) {type : TypeId} {d : Descriptor}
    (hd : s.get? type = some d) (hdeclared : d.origin.isDeclared = true) :
    s.qualifiedNames[(d.qualifiedName, d.arity)]? = some type :=
  hs.declared type { d with base := none, interfaces := [] } (by rw [outline?, hd]; rfl) hdeclared

/-- Types without names of their own may be added. -/
theorem NamesFit.later {s t : Store} (hs : s.NamesFit) (h : s.KeepsOutlines t)
    (hkeywords : t.keywords = s.keywords) (haliases : t.aliases = s.aliases)
    (hqualified : t.qualifiedNames = s.qualifiedNames)
    (hnew : ∀ (type : TypeId) (o : Origin), s.size ≤ type → t.origin? type = some o →
      o.isDeclared = false) : t.NamesFit where
  keyword type keyword hkeyword := by
    rw [haliases]
    rw [hkeywords] at hkeyword
    exact hs.keyword type keyword hkeyword
  declared type d hd hdeclared := by
    by_cases htype : type < s.size
    · rw [h.outline type htype] at hd
      rw [hqualified]
      exact hs.declared type d hd hdeclared
    · have ho : t.origin? type = some d.origin := by
        rw [origin?_eq_outline?, hd]
        rfl
      rw [hnew type d.origin (Nat.le_of_not_lt htype) ho] at hdeclared
      cases hdeclared

/-- Every type is sound, and the tables and roles fit the types. -/
structure WellFormed (s : Store) : Prop where
  closed : s.Closed
  sound : ∀ type d, s.get? type = some d → s.SoundAt type d
  registered : ∀ (generic : TypeId) (args : List TypeId) (type : TypeId),
    s.instantiations[(generic, args)]? = some type →
      ∃ isOpen, s.origin? type = some (.instantiation generic args isOpen)
  free : ∀ (name : String) (type : TypeId), s.freeParameters[name]? = some type →
    s.origin? type = some .methodParameter
  roles : s.RolesFit
  names : s.NamesFit

theorem KeepsOutlines.rolesFit {s t : Store} (h : s.KeepsOutlines t) (hroles : t.roles = s.roles)
    (hs : s.RolesFit) : t.RolesFit where
  root type htype := by
    rw [hroles] at htype
    obtain ⟨hkind, horigin⟩ := hs.root type htype
    exact ⟨h.kind?_some hkind, h.origin?_some horigin⟩
  valueTypeRoot type htype := by
    rw [hroles] at htype
    obtain ⟨hkind, horigin⟩ := hs.valueTypeRoot type htype
    exact ⟨h.kind?_some hkind, h.origin?_some horigin⟩
  nullable type htype := by
    rw [hroles] at htype
    obtain ⟨hkind, param, horigin⟩ := hs.nullable type htype
    exact ⟨h.kind?_some hkind, param, h.origin?_some horigin⟩

namespace WellFormed

variable {s t : Store} {type : TypeId} {d : Descriptor}

/-! ### What is known of a type by its origin -/

theorem sound_of_origin? (hs : s.WellFormed) {o : Origin} (ho : s.origin? type = some o) :
    ∃ d, s.get? type = some d ∧ d.origin = o ∧ s.SoundAt type d := by
  obtain ⟨d, hd, hdo⟩ := Option.map_eq_some_iff.mp ho
  exact ⟨d, hd, hdo, hs.sound type d hd⟩

theorem instantiation (hs : s.WellFormed) {generic : TypeId} {args : List TypeId}
    {isOpen : Bool} (ho : s.origin? type = some (.instantiation generic args isOpen)) :
    ∃ d, s.get? type = some d ∧ s.SoundInstantiation type d generic args isOpen := by
  obtain ⟨d, hd, hdo, hsound⟩ := hs.sound_of_origin? ho
  have horigin := hsound.origin
  unfold SoundOrigin at horigin
  rw [hdo] at horigin
  exact ⟨d, hd, horigin.2⟩

theorem definition (hs : s.WellFormed) {params : List TypeId}
    (ho : s.origin? type = some (.definition params)) :
    params ≠ [] ∧ ∀ position param, params[position]? = some param →
      param = type + 1 + position ∧ s.origin? param = some (.typeParameter type position) := by
  obtain ⟨d, hd, hdo, hsound⟩ := hs.sound_of_origin? ho
  have horigin := hsound.origin
  unfold SoundOrigin at horigin
  rw [hdo] at horigin
  exact horigin.2

/-- The parameters of a definition are known parameters. -/
theorem parameter_origin? (hs : s.WellFormed) {params : List TypeId}
    (ho : s.origin? type = some (.definition params)) {param : TypeId} (hparam : param ∈ params) :
    ∃ position, s.origin? param = some (.typeParameter type position) := by
  obtain ⟨position, hposition⟩ := List.mem_iff_getElem?.mp hparam
  exact ⟨position, ((hs.definition ho).2 position param hposition).2⟩

/-- A type is of the kind of parameters exactly if it comes from the parameters of a definition or
of a method. -/
theorem kind_parameter_iff (hs : s.WellFormed) (hd : s.get? type = some d) :
    d.kind = .parameter ↔
      (∃ declaring position, d.origin = .typeParameter declaring position) ∨
        d.origin = .methodParameter := by
  have horigin := (hs.sound type d hd).origin
  unfold SoundOrigin at horigin
  cases ho : d.origin with
  | declared | definition _ | instantiation _ _ _ => simp_all
  | typeParameter _ _ | methodParameter => simp_all

theorem kind?_of_parameter_origin? (hs : s.WellFormed) {declaring : TypeId} {position : Nat}
    (ho : s.origin? type = some (.typeParameter declaring position)) :
    s.kind? type = some .parameter := by
  obtain ⟨d, hd, hdo, -⟩ := hs.sound_of_origin? ho
  rw [kind?_of_get? hd]
  exact congrArg some ((hs.kind_parameter_iff hd).mpr (.inl ⟨_, _, hdo⟩))

/-- The parameters of a definition are generic parameters. -/
theorem isParameter_of_mem (hs : s.WellFormed) {params : List TypeId}
    (ho : s.origin? type = some (.definition params)) {param : TypeId} (hparam : param ∈ params) :
    s.isParameter param = true := by
  obtain ⟨position, hposition⟩ := hs.parameter_origin? ho hparam
  exact isParameter_iff.mpr (hs.kind?_of_parameter_origin? hposition)

/-! ### What keeps a store well-formed -/

/-- Sound types may be added, as long as the tables and roles still fit. -/
theorem extend (hs : s.WellFormed) (hold : ∀ type, type < s.size → t.get? type = s.get? type)
    (hkeeps : s.KeepsOutlines t) (hclosed : t.Closed)
    (hnew : ∀ type d, s.size ≤ type → t.get? type = some d → t.SoundAt type d)
    (hregistered : ∀ (generic : TypeId) (args : List TypeId) (type : TypeId),
      t.instantiations[(generic, args)]? = some type →
        s.instantiations[(generic, args)]? = some type ∨
          ∃ isOpen, t.origin? type = some (.instantiation generic args isOpen))
    (hfree : ∀ (name : String) (type : TypeId), t.freeParameters[name]? = some type →
      s.freeParameters[name]? = some type ∨ t.origin? type = some .methodParameter)
    (hroles : t.roles = s.roles) (hnames : t.NamesFit) : t.WellFormed where
  closed := hclosed
  sound type d hd := by
    by_cases hlt : type < s.size
    · rw [hold type hlt] at hd
      exact hkeeps.soundAt hlt (hs.sound type d hd)
    · exact hnew type d (Nat.le_of_not_lt hlt) hd
  registered generic args type htype := by
    rcases hregistered generic args type htype with hs' | ht
    · obtain ⟨isOpen, ho⟩ := hs.registered generic args type hs'
      exact ⟨isOpen, hkeeps.origin?_some ho⟩
    · exact ht
  free name type htype := by
    rcases hfree name type htype with hs' | ht
    · exact hkeeps.origin?_some (hs.free name type hs')
    · exact ht
  roles := hkeeps.rolesFit hroles hs.roles
  names := hnames

/-- Names do not matter. -/
theorem unchangedButNames (hs : s.WellFormed) (h : s.UnchangedButNames t) : t.WellFormed := by
  rw [h.eq]
  obtain ⟨hclosed, hsound, hregistered, hfree, hroles, hnames⟩ := hs
  have hkeeps : s.KeepsOutlines { s with names := t.names } :=
    ⟨fun _ _ => rfl, fun _ _ => id, fun _ _ => id⟩
  exact ⟨⟨hclosed.1, hclosed.2, hclosed.3, hclosed.4, hclosed.5, hclosed.6⟩,
    fun type d hd => hkeeps.soundAt (lt_of_get? hd) (hsound type d hd), hregistered, hfree,
    hkeeps.rolesFit rfl hroles, ⟨hnames.keyword, hnames.declared⟩⟩

/-- Supertypes of the right kinds may be filled in. -/
theorem setSupertypes (hs : s.WellFormed) {base : Option TypeId} {interfaces : List TypeId}
    (hd : s.get? type = some d) (hparameter : d.kind ≠ .parameter)
    (hbase : ∀ b, base = some b → s.kind? b = some .classType)
    (hinterfaces : ∀ i ∈ interfaces, s.kind? i = some .interface)
    (hinterface : d.kind = .interface → base = none)
    (hhead : d.origin.isInstantiation = false →
      ∀ u ∈ base.toList ++ interfaces, s.head u ≤ type) :
    (s.setSupertypes type base interfaces).WellFormed := by
  have hkeeps := s.keepsOutlines_setSupertypes type base interfaces
  obtain ⟨hclosed, hsound, hregistered, hfree, hroles, hnames⟩ := hs
  refine ⟨?_, ?_, ?_, ?_, hkeeps.rolesFit rfl hroles, hnames.keyword, ?_⟩
  · have hsize := s.size_setSupertypes type base interfaces
    constructor <;> rw [hsize]
    exacts [hclosed.1, hclosed.2, hclosed.3, hclosed.4, hclosed.5, hclosed.6]
  · intro other d' hd'
    rw [get?_setSupertypes] at hd'
    -- only one type has changed, and of it only the supertypes
    split at hd'
    · next heq =>
      subst heq
      rw [hd] at hd'
      cases hd'
      have hold := hsound type d hd
      have htype := lt_of_get? hd
      exact
        { origin := (hkeeps.soundOrigin htype hold.origin).withSupertypes base interfaces
          base := fun b hb => hkeeps.kind?_some (hbase b hb)
          interfaces := fun i hi => hkeeps.kind?_some (hinterfaces i hi)
          base_interface := hinterface
          supertypes_parameter := fun hkind => absurd hkind hparameter
          head_le := fun horigin u hu => by
            have hu' : u < s.size := by
              rcases List.mem_append.mp hu with hb | hi
              · exact lt_of_kind? (hbase u (Option.mem_toList.mp hb))
              · exact lt_of_kind? (hinterfaces u hi)
            rw [hkeeps.head_eq hu']
            exact hhead horigin u hu }
    · exact hkeeps.soundAt (lt_of_get? hd') (hsound other d' hd')
  · intro generic args other hother
    obtain ⟨isOpen, ho⟩ := hregistered generic args other hother
    exact ⟨isOpen, hkeeps.origin?_some ho⟩
  · intro name other hother
    exact hkeeps.origin?_some (hfree name other hother)
  · intro other e he hdeclared
    rw [outline?_setSupertypes] at he
    exact hnames.declared other e he hdeclared

end WellFormed

end Store

end NominalTypes
