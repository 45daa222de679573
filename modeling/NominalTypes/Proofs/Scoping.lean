import NominalTypes.Proofs.Building.Histories
import NominalTypes.Proofs.Coherence
import NominalTypes.Proofs.Denotation
import NominalTypes.Proofs.Hierarchy.Order
import NominalTypes.Proofs.Substitution

/-!
# The scope of generic parameters

The supertypes of a declared type are expressions over its own parameters, so that its supertypes
are closed if it has none. But an expression may also mention an open type as a whole: a definition
with blanks for its arguments, or a keyword that stands for an open type. The parameters of that
type are foreign to the declaration. No argument ever replaces them, so they come up among the
supertypes of every type that is built from the declared one, closed or not.

- `Store.parametersIn`: the generic parameters that a type contains.
- `Store.foreignParameters`: those that a declaration brings in from elsewhere.
- `Store.ScopedTo`: the supertypes of a type contain its own parameters, or some given ones.
- `Store.Introduces.scopedTo`: a declaration establishes this.
- `Store.ScopedTo.instantiation`: replacement of parameters by arguments preserves it.
- `Store.Reachable.scopedTo_foreignParameters`: the main result.
-/

namespace NominalTypes

/-- The leaves of a tree after a substitution are those of what has been put in their places. -/
theorem TypeTree.mem_leaves_subst {assignment : TypeId → Option TypeTree} {leaf : TypeId} :
    ∀ tree : TypeTree, leaf ∈ (tree.subst assignment).leaves ↔
      ∃ other ∈ tree.leaves, leaf ∈ ((assignment other).getD (.leaf other)).leaves
  | .leaf type => by simp [subst, leaves]
  | .node definition args => by
    have hargs : ∀ arg ∈ args, (leaf ∈ (arg.subst assignment).leaves ↔
        ∃ other ∈ arg.leaves, leaf ∈ ((assignment other).getD (.leaf other)).leaves) :=
      fun arg _ => mem_leaves_subst arg
    rw [subst, leaves, leaves, List.flatMap_map, List.mem_flatMap]
    constructor
    · rintro ⟨arg, harg, hleaf⟩
      obtain ⟨other, hother, hleaf⟩ := (hargs arg harg).mp hleaf
      exact ⟨other, List.mem_flatMap.mpr ⟨arg, harg, hother⟩, hleaf⟩
    · rintro ⟨other, hother, hleaf⟩
      obtain ⟨arg, harg, hother⟩ := List.mem_flatMap.mp hother
      exact ⟨arg, harg, (hargs arg harg).mpr ⟨other, hother, hleaf⟩⟩

namespace Store

variable {s t u met : Store} {d : Declaration} {type other definition p : TypeId}
  {base : Option TypeId} {interfaces params args foreign : List TypeId} {scope : Scope}

/-! ## The parameters in a type -/

/-- The generic parameters that a type contains. Those of a generic type are in its arguments. -/
def parametersIn (s : Store) (type : TypeId) : List TypeId :=
  (s.tree type).leaves.filter s.isParameter

theorem mem_parametersIn :
    p ∈ s.parametersIn type ↔ p ∈ (s.tree type).leaves ∧ s.isParameter p = true :=
  List.mem_filter

/-- A type is closed if it contains none. -/
theorem WellFormed.isOpen_eq_false_iff (hs : s.WellFormed) (htype : type < s.size) :
    s.isOpen type = false ↔ ∀ p, p ∉ s.parametersIn type := by
  rw [← Bool.not_eq_true, hs.isOpen_iff htype]
  simp only [mem_parametersIn, not_exists, not_and]

theorem KeepsOutlines.isParameter_eq (h : s.KeepsOutlines t) (htype : type < s.size) :
    t.isParameter type = s.isParameter type := by
  rw [Bool.eq_iff_iff, isParameter_iff, isParameter_iff, h.kind?_eq htype]

/-- Later stores tell the same of the types that were known before. -/
theorem KeepsOutlines.parametersIn_eq (h : s.KeepsOutlines t) (hs : s.WellFormed)
    (htype : type < s.size) : t.parametersIn type = s.parametersIn type := by
  rw [parametersIn, parametersIn, h.tree_eq hs htype]
  exact List.filter_congr fun leaf hleaf => h.isParameter_eq (hs.leaves_lt htype leaf hleaf)

/-- A definition contains its own parameters. -/
theorem WellFormed.parametersIn_definition (hs : s.WellFormed)
    (ho : s.origin? definition = some (.definition params)) :
    s.parametersIn definition = params := by
  rw [parametersIn, leaves_definition ho]
  exact List.filter_eq_self.mpr fun param hparam => hs.isParameter_of_mem ho hparam

/-- A type that is declared without parameters contains none. -/
theorem WellFormed.parametersIn_declared (hs : s.WellFormed) (ho : s.origin? type = some .declared) :
    s.parametersIn type = [] := by
  obtain ⟨e, he, horigin, -⟩ := hs.sound_of_origin? ho
  have hnot : s.isParameter type = false := by
    rw [Bool.eq_false_iff, ne_eq, isParameter_iff, kind?_of_get? he, Option.some.injEq,
      hs.kind_parameter_iff he, horigin]
    simp
  rw [parametersIn, tree_leaf (by rw [definitionOf?_eq_origin?, ho]), TypeTree.leaves,
    List.filter_singleton, hnot]
  rfl

/-! ## Supertypes within a scope -/

/-- The supertypes of a type contain its own parameters and the given ones, and all of the given
ones come up among them. -/
structure ScopedTo (s : Store) (type : TypeId) (foreign : List TypeId) : Prop where
  covered : ∀ {super p : TypeId}, s.DirectSupertype type super → p ∈ s.parametersIn super →
    p ∈ s.parametersIn type ∨ p ∈ foreign
  occurs : ∀ {p : TypeId}, p ∈ foreign →
    ∃ super, s.DirectSupertype type super ∧ p ∈ s.parametersIn super

/-- The supertypes of a closed type are closed exactly if nothing is foreign. -/
theorem ScopedTo.closed_iff (h : s.ScopedTo type foreign) (hs : s.WellFormed) (htype : type < s.size)
    (hclosed : s.isOpen type = false) :
    (∀ super, s.DirectSupertype type super → s.isOpen super = false) ↔ foreign = [] := by
  constructor
  · intro hsupers
    refine List.eq_nil_iff_forall_not_mem.mpr fun p hp => ?_
    obtain ⟨super, hsuper, hmem⟩ := h.occurs hp
    exact (hs.isOpen_eq_false_iff (hsuper.lt_size hs)).mp (hsupers super hsuper) p hmem
  · rintro rfl super hsuper
    refine (hs.isOpen_eq_false_iff (hsuper.lt_size hs)).mpr fun p hp => ?_
    rcases h.covered hsuper hp with hown | hforeign
    · exact (hs.isOpen_eq_false_iff htype).mp hclosed p hown
    · cases hforeign

/-- It stays like that as long as the descriptor does. -/
theorem ScopedTo.later (h : s.ScopedTo type foreign) (hs : s.WellFormed) (htype : type < s.size)
    (hkeeps : s.KeepsOutlines t) (hget : t.get? type = s.get? type) : t.ScopedTo type foreign := by
  have hsupers : ∀ super, t.DirectSupertype type super ↔ s.DirectSupertype type super :=
    fun super => by rw [DirectSupertype, DirectSupertype, hget]
  have hparams : ∀ {super}, s.DirectSupertype type super →
      t.parametersIn super = s.parametersIn super := fun hsuper =>
    hkeeps.parametersIn_eq hs (hsuper.lt_size hs)
  constructor
  · intro super p hsuper hp
    have hsuper := (hsupers super).mp hsuper
    rw [hparams hsuper] at hp
    rw [hkeeps.parametersIn_eq hs htype]
    exact h.covered hsuper hp
  · intro p hp
    obtain ⟨super, hsuper, hmem⟩ := h.occurs hp
    exact ⟨super, (hsupers super).mpr hsuper, hparams hsuper ▸ hmem⟩

/-! ## Declarations -/

/-- The leaves of the types that a text mentions. -/
def leavesOfText (s : Store) (scope : Scope) (text : String) : List TypeId :=
  match TypeExpr.parse text with
  | .ok expr => s.leavesOf scope expr.atoms
  | .error _ => []

/-- The generic parameters of the types that a declaration mentions in the texts of its supertypes,
its own ones included. -/
def mentioned (s : Store) (scope : Scope) (d : Declaration) : List TypeId :=
  (d.supertypeTexts.flatMap (s.leavesOfText scope)).filter s.isParameter

/-- The generic parameters that a declaration mentions without being declared with them. -/
def foreignParameters (s : Store) (definition : TypeId) (d : Declaration) : List TypeId :=
  (s.mentioned (d.parameters.zip (s.parametersIn definition)) d).filter
    (· ∉ s.parametersIn definition)

theorem mem_foreignParameters : p ∈ s.foreignParameters definition d ↔
    p ∈ s.mentioned (d.parameters.zip (s.parametersIn definition)) d ∧
      p ∉ s.parametersIn definition := by
  rw [foreignParameters, List.mem_filter, decide_eq_true_eq]

/-- The type that is implied as a base is declared without parameters. -/
theorem RolesFit.origin?_impliedBase (hs : s.RolesFit) {kind : Kind}
    (h : s.impliedBase type kind = some other) : s.origin? other = some .declared := by
  cases kind with
  | classType => exact (hs.root other (Option.filter_eq_some_iff.mp h).1).2
  | valueType => exact (hs.valueTypeRoot other h).2
  | interface | parameter => cases h

namespace Introduces

/-- The declared type has the parameters that have been entered with it. -/
theorem parametersIn_eq (h : s.Introduces d met t base interfaces) (ht : t.WellFormed) :
    t.parametersIn met.size = met.nextParameters d := by
  have ho : t.origin? met.size = some
      (if d.parameters.length = 0 then .declared else .definition (met.nextParameters d)) :=
    origin?_of_get? h.own
  split at ho
  · next hlength =>
    rw [ht.parametersIn_declared ho, nextParameters, hlength]
    rfl
  · exact ht.parametersIn_definition ho

/-- The names in the texts of a declaration stand for the same after it as before. -/
theorem leavesOf_eq (h : s.Introduces d met t base interfaces) (hs : s.Coherent)
    (atoms : List TypeExpr.Atom) :
    t.leavesOf (met.scopeOf d) atoms = (met.enter d).leavesOf (met.scopeOf d) atoms := by
  obtain ⟨hkind, -⟩ := kind_of_fault?_eq_none h.fault
  exact h.outlines.leavesOf_eq h.naming
    ((hs.unchangedButNames h.unchanged).enter hkind h.new).wellFormed (met.lt_of_mem_scope d) atoms

/-- The leaves of a supertype are those of the types that its text mentions. -/
theorem leaves_eq (h : s.Introduces d met t base interfaces) (hs : s.Coherent) {text : String}
    (hread : ReadBetween (met.scopeOf d) (met.enter d) t text type) :
    (t.tree type).leaves = t.leavesOfText (met.scopeOf d) text := by
  obtain ⟨expr, hparse, -, hyields⟩ := h.yields hs hread
  rw [leavesOfText, hparse]
  exact hyields.leaves_eq.trans (h.leavesOf_eq hs expr.atoms).symm

/-- The parameters in the supertypes of the declared type are the ones that are mentioned. -/
theorem mem_mentioned_iff (h : s.Introduces d met t base interfaces) (hs : s.Coherent)
    (ht : t.WellFormed) : p ∈ t.mentioned (met.scopeOf d) d ↔
      ∃ super, t.DirectSupertype met.size super ∧ p ∈ t.parametersIn super := by
  rw [mentioned, List.mem_filter, List.mem_flatMap]
  constructor
  · rintro ⟨⟨text, htext, hleaf⟩, hparameter⟩
    obtain ⟨e, super, he, hsuper, hread⟩ := h.exists_supertype htext
    rw [← h.leaves_eq hs hread] at hleaf
    exact ⟨super, ⟨e, he, hsuper⟩, mem_parametersIn.mpr ⟨hleaf, hparameter⟩⟩
  · rintro ⟨super, ⟨e, he, hsuper⟩, hp⟩
    rcases h.exists_text he hsuper with himplied | ⟨text, htext, hread⟩
    · have hmet := (hs.unchangedButNames h.unchanged).wellFormed
      have hkeeps := (hmet.closed.grows_enter h.new).keepsOutlines.trans h.outlines
      rw [ht.parametersIn_declared
        (hkeeps.origin?_some (hmet.roles.origin?_impliedBase himplied))] at hp
      cases hp
    · obtain ⟨hleaf, hparameter⟩ := mem_parametersIn.mp hp
      rw [h.leaves_eq hs hread] at hleaf
      exact ⟨⟨text, htext, hleaf⟩, hparameter⟩

/-- A declaration scopes its supertypes to its parameters, but for the foreign ones. -/
theorem scopedTo (h : s.Introduces d met t base interfaces) (hs : s.Coherent) (ht : t.WellFormed) :
    t.ScopedTo met.size (t.foreignParameters met.size d) := by
  have hforeign : ∀ {p : TypeId}, p ∈ t.foreignParameters met.size d ↔
      p ∈ t.mentioned (met.scopeOf d) d ∧ p ∉ t.parametersIn met.size := by
    intro p
    rw [mem_foreignParameters, h.parametersIn_eq ht]
    rfl
  constructor
  · intro super p hsuper hp
    have hmentioned := (h.mem_mentioned_iff hs ht).mpr ⟨super, hsuper, hp⟩
    by_cases hown : p ∈ t.parametersIn met.size
    · exact .inl hown
    · exact .inr (hforeign.mpr ⟨hmentioned, hown⟩)
  · intro p hp
    exact (h.mem_mentioned_iff hs ht).mp (hforeign.mp hp).1

end Introduces

/-! ## Instantiations -/

/-- Every parameter of a definition is assigned an argument. -/
theorem WellFormed.exists_assigned? (hs : s.WellFormed)
    (ho : s.origin? definition = some (.definition params)) (hlength : params.length = args.length)
    (hp : p ∈ params) : ∃ arg, assigned? params args p = some arg := by
  obtain ⟨position, hposition, rfl⟩ := List.mem_iff_getElem.mp hp
  exact ⟨_, hs.assigned?_parameter ho (List.getElem?_eq_getElem hposition)
    (List.getElem?_eq_getElem (hlength ▸ hposition))⟩

/-- If the supertypes of a definition are scoped, so are those of its instantiations: every
parameter of the definition gives way to those of an argument, and the foreign ones stay. -/
theorem ScopedTo.instantiation {isOpen : Bool} (h : s.ScopedTo definition foreign)
    (hs : s.Coherent) (ho : s.origin? type = some (.instantiation definition args isOpen))
    (hforeign : ∀ p ∈ foreign, p ∉ s.parametersIn definition) : s.ScopedTo type foreign := by
  have hwf := hs.wellFormed
  obtain ⟨e, he, hsound⟩ := hwf.instantiation ho
  obtain ⟨params, hparams, hlength, -⟩ := hsound.parameters
  obtain ⟨g, hg, hgo, -⟩ := hwf.sound_of_origin? hparams
  have horigin : e.origin = .instantiation definition args isOpen := by
    rw [origin?_of_get? he] at ho
    exact Option.some.inj ho
  have htrees := (hs.coherent type (lt_of_get? he) id).map_supertypes he horigin hg
  rw [show g.arguments = params by rw [Descriptor.arguments, hgo]] at htrees
  rw [hwf.parametersIn_definition hparams] at hforeign
  constructor
  · rintro super p ⟨e', he', hsuper⟩ hp
    rw [he] at he'
    cases he'
    obtain ⟨generic, hgeneric, htree⟩ := List.mem_map.mp (htrees ▸ List.mem_map_of_mem hsuper)
    obtain ⟨hleaf, hparameter⟩ := mem_parametersIn.mp hp
    rw [← htree, image, TypeTree.mem_leaves_subst] at hleaf
    obtain ⟨other, hother, hleaf⟩ := hleaf
    cases harg : assigned? params args other with
    | some arg =>
      -- the parameter comes from the argument that is put in
      rw [assignment, harg] at hleaf
      refine .inl (mem_parametersIn.mpr ⟨?_, hparameter⟩)
      rw [hwf.tree_instantiation ho, TypeTree.leaves, List.flatMap_map]
      exact List.mem_flatMap.mpr ⟨arg, (assigned?_mem harg).2, hleaf⟩
    | none =>
      -- nothing is put in, so the definition does not have this parameter
      rw [assignment, harg, Option.map_none, Option.getD_none, TypeTree.leaves,
        List.mem_singleton] at hleaf
      subst hleaf
      refine .inr ((h.covered ⟨g, hg, hgeneric⟩
        (mem_parametersIn.mpr ⟨hother, hparameter⟩)).resolve_left fun hown => ?_)
      rw [hwf.parametersIn_definition hparams] at hown
      obtain ⟨arg, hsome⟩ := hwf.exists_assigned? hparams hlength hown
      rw [harg] at hsome
      cases hsome
  · intro p hp
    obtain ⟨generic, ⟨g', hg', hgeneric⟩, hmem⟩ := h.occurs hp
    rw [hg] at hg'
    cases hg'
    obtain ⟨super, hsuper, htree⟩ := List.mem_map.mp (htrees ▸ List.mem_map_of_mem hgeneric)
    obtain ⟨hleaf, hparameter⟩ := mem_parametersIn.mp hmem
    refine ⟨super, ⟨e, he, hsuper⟩, mem_parametersIn.mpr ⟨?_, hparameter⟩⟩
    rw [htree, image, TypeTree.mem_leaves_subst]
    have hnone : assigned? params args p = none :=
      Option.eq_none_iff_forall_ne_some.mpr fun arg harg => hforeign p hp (assigned?_mem harg).1
    refine ⟨p, hleaf, ?_⟩
    rw [assignment, hnone, Option.map_none, Option.getD_none, TypeTree.leaves]
    exact List.mem_singleton_self p

/-! ## The whole run -/

/-- What the declaration has established of its type still holds. -/
theorem HasDeclared.scopedTo (h : u.HasDeclared definition d t) :
    u.ScopedTo definition (t.foreignParameters definition d) ∧
      u.parametersIn definition = t.parametersIn definition := by
  obtain ⟨s, order, operations, hs, hrun, rfl⟩ := h
  have ht := hs.of_declare hrun
  obtain ⟨rfl, met, base, interfaces, h⟩ := declare_introduces hs.coherent hrun
  have hwf := ht.coherent.wellFormed
  have hknown : s.size < t.size := h.unchanged.size_eq ▸ lt_of_get? h.own
  have hkeeps := ht.keepsOutlines_afterAll operations
  have hscoped := h.scopedTo hs.coherent hwf
  rw [h.unchanged.size_eq] at hscoped
  exact ⟨hscoped.later hwf hknown hkeeps (ht.get?_afterAll operations hknown),
    hkeeps.parametersIn_eq hwf hknown⟩

/-- All parameters in a supertype of a type are among those of the type itself, but for the foreign
ones that its declaration, or that of its definition, mentions; and these do come up among its
supertypes. So the supertypes of a closed type are closed exactly if the declaration mentions no
foreign parameter. Each type has a declaration behind it, but for the parameters, which have no
supertypes. -/
theorem Reachable.scopedTo_foreignParameters (hu : u.Reachable) (htype : type < u.size) :
    (u.isParameter type = true → ∀ super, ¬ u.DirectSupertype type super) ∧
    (u.isParameter type = false → ∃ d t, u.HasDeclared (u.head type) d t) ∧
    ∀ d t, u.HasDeclared (u.head type) d t →
      u.ScopedTo type (t.foreignParameters (u.head type) d) ∧
      (u.isOpen type = false →
        ((∀ super, u.DirectSupertype type super → u.isOpen super = false) ↔
          t.foreignParameters (u.head type) d = [])) := by
  have hwf := hu.coherent.wellFormed
  refine ⟨fun hparameter super hsuper => ?_, fun hnot => ?_, fun d t hdeclared => ?_⟩
  · obtain ⟨e, he, hmem⟩ := hsuper
    rw [isParameter_iff, kind?_of_get? he, Option.some.injEq] at hparameter
    rw [(hwf.sound type e he).supertypes_parameter hparameter] at hmem
    cases hmem
  · obtain ⟨e, he, hdeclared⟩ := hwf.isDeclared_head htype hnot
    exact hu.exists_hasDeclared he hdeclared
  · obtain ⟨hscoped, hown⟩ := hdeclared.scopedTo
    have htype' : u.ScopedTo type (t.foreignParameters (u.head type) d) := by
      rcases u.head_eq_or_instantiation type with hself | ⟨args, isOpen, ho⟩
      · rwa [hself] at hscoped ⊢
      · exact hscoped.instantiation hu.coherent ho fun p hp => by
          rw [hown]
          exact (mem_foreignParameters.mp hp).2
    exact ⟨htype', htype'.closed_iff hwf htype⟩

/-- A class that names an interface with a blank for its argument. -/
def implementer : Declaration := { Declaration.plain .classType "C" with interfaces := ["I<>"] }

/-- The store in which it has been declared. -/
def implemented : Store :=
  Store.empty.afterAll
    [.declare { Declaration.plain .interface "I" with parameters := ["T"] }, .declare implementer]

theorem reachable_implemented : implemented.Reachable := Reachable.empty.afterAll _

theorem directSupertype_implemented : implemented.DirectSupertype 2 0 := by
  have hsupers : (implemented.get? 2).map Descriptor.supertypes = some [0] := by decide +kernel
  obtain ⟨e, he, heq⟩ := Option.map_eq_some_iff.mp hsupers
  exact ⟨e, he, heq ▸ List.mem_singleton_self 0⟩

/-- The class is closed but its interface is open, so something is foreign. -/
theorem scopedTo_implemented : implemented.HasDeclared 2 implementer implemented ∧
    implemented.ScopedTo 2 (implemented.foreignParameters 2 implementer) ∧
    implemented.foreignParameters 2 implementer ≠ [] := by
  have hhead : implemented.head 2 = 2 := by decide +kernel
  have hdeclared : implemented.HasDeclared 2 implementer implemented :=
    ⟨Store.empty.afterAll [.declare { Declaration.plain .interface "I" with parameters := ["T"] }],
      .oldestFirst, [], Reachable.empty.afterAll _,
      Prod.ext (by decide +kernel) (Build.after_dropped _ _).symm, (implemented.afterAll_nil).symm⟩
  obtain ⟨-, -, hscoped⟩ :=
    reachable_implemented.scopedTo_foreignParameters (show 2 < implemented.size by decide +kernel)
  rw [hhead] at hscoped
  obtain ⟨hscoped, hclosed⟩ := hscoped implementer implemented hdeclared
  refine ⟨hdeclared, hscoped, fun hnil => ?_⟩
  have hinterface := (hclosed (by decide +kernel)).mpr hnil 0 directSupertype_implemented
  exact absurd hinterface (by decide +kernel)

theorem not_closed_implemented : ¬ ∀ (s : Store) (type super : TypeId), s.Reachable →
    s.isOpen type = false → s.DirectSupertype type super → s.isOpen super = false := fun h =>
  absurd (h implemented 2 0 reachable_implemented (by decide +kernel) directSupertype_implemented)
    (by decide +kernel)

end Store

end NominalTypes
