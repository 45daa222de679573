import NominalTypes.Proofs.Building.Naming
import NominalTypes.Proofs.Hierarchy.Reach
import NominalTypes.Proofs.Identity
import NominalTypes.Proofs.TypeExpr.Grammar

/-!
# Labels are read back as the types that they show

The label of a type is the text of an expression. Its parts are read back as the types that they
show, provided that names and keywords can be read at all and that no other type is found by them.
Then every instantiation on the way is found, since it is there already, and nothing is built.

- `TypeTree.height`: how deeply arguments are nested.
- `Store.Shows`: the parts of a type that its label shows.
- `Store.Legible`: a part can be read where it is shown. Keywords stand for the types that are shown
  by them, and declared types are found by their qualified names (`Store.NamesFit`).
- `Store.Denotes`: the expression of a label, where showing and reading meet.
- `Store.Reachable.readType_label`: the main result.
-/

namespace NominalTypes

/-! ## Levels of arguments -/

namespace TypeTree

mutual

/-- How deeply arguments are nested. A type that is not generic has none. -/
def height : TypeTree → Nat
  | .leaf _ => 0
  | .node _ args => heightAll args + 1

/-- The greatest height in a list of arguments. -/
def heightAll : List TypeTree → Nat
  | [] => 0
  | arg :: rest => max arg.height (heightAll rest)

end

theorem height_le_heightAll {arg : TypeTree} {args : List TypeTree} (h : arg ∈ args) :
    arg.height ≤ heightAll args := by
  induction args with
  | nil => cases h
  | cons first rest ih =>
    rw [heightAll]
    rcases List.mem_cons.mp h with rfl | hrest
    · exact Nat.le_max_left _ _
    · exact Nat.le_trans (ih hrest) (Nat.le_max_right _ _)

end TypeTree

/-! ## The text of an expression -/

namespace TypeExpr

theorem append_renderRest (first : String) (rest : List TypeExpr) :
    first ++ renderRest rest = ", ".intercalate (first :: rest.map render) := by
  induction rest generalizing first with
  | nil => simp [renderRest]
  | cons arg rest ih =>
    rw [renderRest, String.append_assoc, ih, List.map_cons, String.intercalate_cons_cons,
      String.append_assoc]

/-- A name is followed by its arguments in brackets. -/
theorem render_named (name : String) (args : List TypeExpr) :
    (named name args).render = name ++ Store.bracketed (args.map render) := by
  cases args with
  | nil => simp [render, Store.bracketed]
  | cons arg rest =>
    rw [List.map_cons, Store.bracketed, ← append_renderRest, render]
    · simp [String.append_assoc]
    · simp

end TypeExpr

namespace Store

variable {s : Store} {style : LabelStyle} {type part inner definition : TypeId}
  {args : List TypeId} {d : Descriptor} {name : String}

/-! ## Reading expressions that are there -/

theorem find_eq {arity : Nat} (h : s.lookup name arity = .ok type) :
    find name arity s = (.ok type, s) := by
  rw [find, Build.get_bind, h]
  rfl

theorem resolveIn_name (h : s.lookup name 0 = .ok type) :
    resolveIn [] (.named name []) s = (.ok type, s) := by
  rw [resolveIn]
  exact find_eq h

/-- Arguments are read one after the other. -/
theorem resolveAllIn_map {expr : TypeId → TypeExpr}
    (h : ∀ arg ∈ args, resolveIn [] (expr arg) s = (.ok arg, s)) :
    resolveAllIn [] (args.map expr) s = (.ok args, s) := by
  induction args with
  | nil => rfl
  | cons arg args ih =>
    obtain ⟨harg, hargs⟩ := List.forall_mem_cons.mp h
    rw [List.map_cons, resolveAllIn, Build.bind_of_ok harg, Build.bind_of_ok (ih hargs)]
    rfl

/-- A name with arguments is read as the instantiation that is there. -/
theorem resolveIn_applied {expr : TypeId → TypeExpr} (hne : args ≠ [])
    (hlookup : s.lookup name args.length = .ok definition)
    (hargs : ∀ arg ∈ args, resolveIn [] (expr arg) s = (.ok arg, s))
    (hrun : instantiate definition args s = (.ok type, s)) :
    resolveIn [] (.named name (args.map expr)) s = (.ok type, s) := by
  obtain ⟨arg, rest, rfl⟩ := List.exists_cons_of_ne_nil hne
  obtain ⟨harg, hrest⟩ := List.forall_mem_cons.mp hargs
  rw [List.length_cons] at hlookup
  rw [List.map_cons, resolveIn, List.length_map, Build.bind_of_ok (find_eq hlookup),
    Build.bind_of_ok harg, Build.bind_of_ok (resolveAllIn_map hrest)]
  exact hrun

theorem resolveIn_nullable {expr : TypeExpr} (hinner : resolveIn [] expr s = (.ok inner, s))
    (hwrapper : s.roles.nullable = some definition)
    (hrun : instantiate definition [inner] s = (.ok type, s)) :
    resolveIn [] (.nullable expr) s = (.ok type, s) := by
  rw [resolveIn, Build.bind_of_ok hinner, nullableForm, Build.get_bind, hwrapper]
  exact hrun

/-! ## What a label shows -/

/-- The parts of a type that its label shows: the type itself and, unless a keyword takes its place,
the parts of its arguments. The full label shows no keywords, and so all parts. -/
inductive Shows (s : Store) (style : LabelStyle) : TypeId → TypeId → Prop
  | self (type : TypeId) : Shows s style type type
  | argument {type arg part : TypeId} {d : Descriptor} (hd : s.get? type = some d)
      (hkeyword : s.shownKeyword? style type = none) (harg : arg ∈ d.arguments)
      (hpart : Shows s style arg part) : Shows s style type part

/-- The part of a label that shows the type is read as this type. It is a keyword, or the name of
the declared type behind it; where a nullable mark takes the place of the name, nothing is asked. -/
structure Legible (s : Store) (style : LabelStyle) (type : TypeId) (d : Descriptor) : Prop where
  keyword : ∀ keyword, s.shownKeyword? style type = some keyword →
    IsTypeName keyword ∧ s.lookup keyword 0 = .ok type
  name : s.shownKeyword? style type = none →
    (style = .short → ∀ inner, ¬ s.IsNullableForm type inner) →
      IsTypeName (headName style d) ∧ s.lookup (headName style d) d.arity = .ok (s.head type)

/-- In short labels: keywords are type names, and printed names are type names by which the declared
types that they stand for are found. -/
structure LegibleInShort (s : Store) (type : TypeId) (d : Descriptor) : Prop where
  keyword : ∀ keyword, s.keyword? type = some keyword → IsTypeName keyword
  name : s.keyword? type = none → (∀ inner, ¬ s.IsNullableForm type inner) →
    IsTypeName d.name ∧ s.lookup d.name d.arity = .ok (s.head type)

/-- In full labels: names and namespaces are type names, and the name of a type that is not generic
is not taken by a keyword. -/
structure LegibleInFull (s : Store) (d : Descriptor) : Prop where
  name : IsTypeName d.name
  qualifier : ∀ qualifier, d.qualifier = some qualifier → IsTypeName qualifier
  not_taken : d.isGeneric = false → s.aliases[d.qualifiedName]? = none

theorem LegibleInShort.legible (hs : s.NamesFit) (h : s.LegibleInShort type d) :
    s.Legible .short type d where
  keyword keyword hkeyword := by
    refine ⟨h.keyword keyword hkeyword, ?_⟩
    have halias : s.aliased? keyword 0 = some type := hs.keyword type keyword hkeyword
    rw [lookup, halias]
  name hnone hmark := h.name hnone (hmark rfl)

theorem LegibleInFull.isTypeName (h : s.LegibleInFull d) : IsTypeName d.qualifiedName := by
  unfold Descriptor.qualifiedName
  split
  · next qualifier hqualifier => exact (h.qualifier qualifier hqualifier).join h.name
  · exact h.name

/-- By its qualified name, the declared type behind a type is found. -/
theorem WellFormed.qualifiedNames_head (hs : s.WellFormed) (hd : s.get? type = some d)
    (hkind : d.kind ≠ .parameter) :
    s.qualifiedNames[(d.qualifiedName, d.arity)]? = some (s.head type) := by
  have ho := origin?_of_get? hd
  have hnot := mt (hs.kind_parameter_iff hd).mpr hkind
  unfold head
  rw [definitionOf?_eq_origin?, ho]
  cases horigin : d.origin with
  | typeParameter declaring position => exact absurd (.inl ⟨_, _, horigin⟩) hnot
  | methodParameter => exact absurd (.inr horigin) hnot
  | declared | definition _ =>
    exact hs.names.qualifiedNames_eq hd (by rw [horigin]; rfl)
  | instantiation definition args isOpen =>
    -- the name and the number of arguments are those of the definition
    rw [horigin] at ho
    obtain ⟨d', hd', hsound⟩ := hs.instantiation ho
    obtain rfl := Option.some.inj (hd.symm.trans hd')
    obtain ⟨g, hg, hname, hqualifier, -, -⟩ := hsound.outline
    obtain ⟨params, hparams, hlength, -⟩ := hsound.parameters
    rw [origin?_eq_outline?, hg, Option.map_some, Option.some_inj] at hparams
    have hkey : (d.qualifiedName, d.arity) = (g.qualifiedName, g.arity) := by
      refine congrArg₂ Prod.mk ?_ ?_
      · rw [Descriptor.qualifiedName, Descriptor.qualifiedName, hname, hqualifier]
      · rw [Descriptor.arity, Descriptor.arguments, horigin, Descriptor.arity,
          Descriptor.arguments, hparams, hlength]
    rw [hkey]
    exact hs.names.declared definition g hg (by rw [hparams]; rfl)

/-- A generic type has arguments. -/
theorem WellFormed.arguments_ne_nil (hs : s.WellFormed) (hd : s.get? type = some d)
    (hgeneric : d.isGeneric = true) : d.arguments ≠ [] := by
  have ho := origin?_of_get? hd
  unfold Descriptor.isGeneric at hgeneric
  unfold Descriptor.arguments
  cases horigin : d.origin with
  | definition params =>
    rw [horigin] at ho
    exact (hs.definition ho).1
  | instantiation definition args isOpen =>
    -- a definition has parameters, and there are as many arguments
    rw [horigin] at ho
    obtain ⟨_, -, hsound⟩ := hs.instantiation ho
    obtain ⟨params, hparams, hlength, -⟩ := hsound.parameters
    rintro rfl
    exact (hs.definition hparams).1 (List.length_eq_zero_iff.mp hlength)
  | declared | typeParameter _ _ | methodParameter =>
    rw [horigin] at hgeneric
    cases hgeneric

/-- A keyword with the text of a qualified name would come before the name. A generic type is looked
up with its arguments, and keywords have none. -/
theorem LegibleInFull.lookup_eq (hs : s.WellFormed) (hd : s.get? type = some d)
    (hkind : d.kind ≠ .parameter) (h : s.LegibleInFull d) :
    s.lookup d.qualifiedName d.arity = .ok (s.head type) := by
  have halias : s.aliased? d.qualifiedName d.arity = none := by
    unfold aliased?
    split
    · next harity =>
      refine h.not_taken (Bool.eq_false_iff.mpr fun hgeneric => ?_)
      exact hs.arguments_ne_nil hd hgeneric (List.length_eq_zero_iff.mp harity)
    · rfl
  rw [lookup, halias, hs.qualifiedNames_head hd hkind]

theorem LegibleInFull.legible (hs : s.WellFormed) (hd : s.get? type = some d)
    (hkind : d.kind ≠ .parameter) (h : s.LegibleInFull d) : s.Legible .full type d where
  keyword _ hkeyword := nomatch hkeyword
  name _ _ := ⟨h.isTypeName, h.lookup_eq hs hd hkind⟩

/-! ## The expression of a label -/

/-- The expression has the label of the type as its text, and is read as the type. -/
structure Denotes (s : Store) (style : LabelStyle) (type : TypeId) (expr : TypeExpr) : Prop where
  render_eq : expr.render = s.label style type
  grammatical : expr.IsGrammatical
  nesting_le : expr.nesting ≤ (s.tree type).height + 1
  resolveIn_eq : resolveIn [] expr s = (.ok type, s)

/-- A label that is a single name. -/
theorem denotes_name (hlabel : s.label style type = name) (hname : IsTypeName name)
    (hlookup : s.lookup name 0 = .ok type) : s.Denotes style type (.named name []) where
  render_eq := by rw [hlabel, TypeExpr.render]
  grammatical := .named hname fun _ h => (List.not_mem_nil h).elim
  nesting_le := by
    rw [TypeExpr.nesting, TypeExpr.nestingAll]
    exact Nat.le_add_left _ _
  resolveIn_eq := resolveIn_name hlookup

section Instantiations

variable {isOpen : Bool} {expr : TypeId → TypeExpr}

/-- The arguments of an instantiation are nested less deeply than itself. -/
theorem WellFormed.height_lt (hs : s.WellFormed)
    (ho : s.origin? type = some (.instantiation definition args isOpen)) {arg : TypeId}
    (harg : arg ∈ args) : (s.tree arg).height < (s.tree type).height := by
  rw [hs.tree_instantiation ho, TypeTree.height]
  exact Nat.lt_succ_of_le (TypeTree.height_le_heightAll (List.mem_map_of_mem harg))

/-- A nullable mark behind the label of the argument. -/
theorem denotes_marked (hs : s.WellFormed) (hd : s.get? type = some d)
    (hnone : s.shownKeyword? .short type = none)
    (ho : d.origin = .instantiation definition [inner] isOpen)
    (hwrapper : s.roles.nullable = some definition) {expr : TypeExpr}
    (hinner : s.Denotes .short inner expr) : s.Denotes .short type (.nullable expr) := by
  have ho' : s.origin? type = some (.instantiation definition [inner] isOpen) := by
    rw [origin?_of_get? hd, ho]
  constructor
  · rw [label_instantiation hs hd hnone ho, TypeExpr.render, hinner.render_eq]
    exact (if_pos hwrapper).symm
  · exact .nullable hinner.grammatical
  · have hlt := hs.height_lt ho' List.mem_cons_self
    rw [TypeExpr.nesting]
    exact Nat.le_succ_of_le (Nat.le_trans hinner.nesting_le hlt)
  · exact resolveIn_nullable hinner.resolveIn_eq hwrapper
      (hs.instantiate_of_builtFrom (builtFrom_iff.mpr (.inr ⟨isOpen, ho'⟩)))

/-- The name of a definition in front of the labels of the arguments. -/
theorem denotes_applied (hs : s.WellFormed) (hd : s.get? type = some d)
    (hnone : s.shownKeyword? style type = none)
    (ho : d.origin = .instantiation definition args isOpen)
    (hplain : style = .short → ∀ inner, ¬ s.IsNullableForm type inner)
    (hname : IsTypeName (headName style d))
    (hlookup : s.lookup (headName style d) args.length = .ok definition)
    (hargs : ∀ arg ∈ args, s.Denotes style arg (expr arg)) :
    s.Denotes style type (.named (headName style d) (args.map expr)) := by
  have ho' : s.origin? type = some (.instantiation definition args isOpen) := by
    rw [origin?_of_get? hd, ho]
  have hlabels : (args.map expr).map TypeExpr.render = args.map (s.label style) := by
    rw [List.map_map]
    exact List.map_congr_left fun arg harg => (hargs arg harg).render_eq
  constructor
  · rw [TypeExpr.render_named, hlabels, label_instantiation hs hd hnone ho]
    unfold appliedLabel
    split
    · next inner hshown =>
      obtain ⟨arg, harg, -⟩ := List.map_eq_singleton_iff.mp hshown
      rw [if_neg, hshown]
      intro hwrapper
      exact hplain rfl arg ⟨definition, isOpen, hwrapper, harg ▸ ho'⟩
    · rfl
  · refine .named hname (List.forall_mem_map.mpr fun arg harg => (hargs arg harg).grammatical)
  · rw [TypeExpr.nesting]
    refine Nat.succ_le_succ (TypeExpr.nestingAll_le_iff.mpr (List.forall_mem_map.mpr ?_))
    intro arg harg
    exact Nat.le_trans (hargs arg harg).nesting_le (hs.height_lt ho' harg)
  · have hne := hs.arguments_ne_nil hd (by rw [Descriptor.isGeneric, ho])
    rw [Descriptor.arguments, ho] at hne
    exact resolveIn_applied hne hlookup (fun arg harg => (hargs arg harg).resolveIn_eq)
      (hs.instantiate_of_builtFrom (builtFrom_iff.mpr (.inr ⟨isOpen, ho'⟩)))

/-- The arguments of a type without parameters have none either. -/
theorem WellFormed.isOpen_arg (hs : s.WellFormed)
    (ho : s.origin? type = some (.instantiation definition args isOpen))
    (hclosed : s.isOpen type = false) {arg : TypeId} (harg : arg ∈ args) :
    s.isOpen arg = false := by
  refine Bool.eq_false_iff.mpr fun hopen => ?_
  obtain ⟨leaf, hleaf, hparameter⟩ := (hs.isOpen_iff (hs.args_known ho harg).2).mp hopen
  have hmem : leaf ∈ (s.tree type).leaves := by
    rw [hs.tree_instantiation ho, TypeTree.leaves]
    exact List.mem_flatMap.mpr ⟨_, List.mem_map_of_mem harg, hleaf⟩
  exact Bool.eq_false_iff.mp hclosed
    ((hs.isOpen_iff (lt_of_origin? ho)).mpr ⟨leaf, hmem, hparameter⟩)

end Instantiations

/-- The label of a type without parameters denotes it, if all parts that it shows are legible. -/
theorem WellFormed.exists_denotes (hs : s.WellFormed) (htype : type < s.size)
    (hclosed : s.isOpen type = false)
    (hlegible : ∀ part d, s.Shows style type part → s.get? part = some d →
      s.isOpen part = false → s.Legible style part d) : ∃ expr, s.Denotes style type expr := by
  induction type using Nat.strongRecOn with
  | ind type ih =>
    obtain ⟨d, hd⟩ := exists_get? htype
    have hhere := hlegible type d (.self type) hd hclosed
    cases hkeyword : s.shownKeyword? style type with
    | some keyword =>
      obtain ⟨hname, hlookup⟩ := hhere.keyword keyword hkeyword
      exact ⟨_, denotes_name (label_of_keyword hd hkeyword) hname hlookup⟩
    | none =>
    cases horigin : d.origin with
    | declared | typeParameter _ _ | methodParameter =>
      have ho := origin?_of_get? hd
      rw [horigin] at ho
      have hplain : ∀ inner, ¬ s.IsNullableForm type inner := by
        rintro inner ⟨wrapper, isOpen, -, hwrapper⟩
        rw [ho] at hwrapper
        cases hwrapper
      obtain ⟨hname, hlookup⟩ := hhere.name hkeyword fun _ => hplain
      have hhead : s.head type = type := by rw [head, definitionOf?_eq_origin?, ho]; rfl
      rw [hhead, Descriptor.arity, Descriptor.arguments, horigin] at hlookup
      have hlabel := label_plain hd hkeyword (by rw [Descriptor.isGeneric, horigin])
      exact ⟨_, denotes_name hlabel hname hlookup⟩
    | definition params =>
      rw [isOpen, hd, Option.any_some, Descriptor.isOpen, Descriptor.hasOpenArguments, horigin,
        Bool.or_true] at hclosed
      cases hclosed
    | instantiation definition args isOpen =>
      have ho := origin?_of_get? hd
      rw [horigin] at ho
      have hargs : ∀ arg ∈ args, ∃ expr, s.Denotes style arg expr := by
        intro arg harg
        obtain ⟨hlt, hknown⟩ := hs.args_known ho harg
        refine ih arg hlt hknown (hs.isOpen_arg ho hclosed harg) fun part e hpart => ?_
        refine hlegible part e (.argument hd hkeyword ?_ hpart)
        rwa [Descriptor.arguments, horigin]
      choose! expr hdenotes using hargs
      by_cases hplain : style = .short → ∀ inner, ¬ s.IsNullableForm type inner
      · obtain ⟨hname, hlookup⟩ := hhere.name hkeyword hplain
        have hhead : s.head type = definition := by rw [head, definitionOf?_eq_origin?, ho]; rfl
        rw [hhead, Descriptor.arity, Descriptor.arguments, horigin] at hlookup
        exact ⟨_, denotes_applied hs hd hkeyword horigin hplain hname hlookup hdenotes⟩
      · push Not at hplain
        obtain ⟨rfl, inner, wrapper, _, hwrapper, hform⟩ := hplain
        rw [ho] at hform
        cases hform
        exact ⟨_, denotes_marked hs hd hkeyword horigin hwrapper
          (hdenotes inner List.mem_cons_self)⟩

/-! ## Reading labels -/

/-- What denotes a type is read as the type, unless arguments are nested too deeply. -/
theorem Denotes.readType_eq {expr : TypeExpr} (h : s.Denotes style type expr)
    (hheight : (s.tree type).height < maxNesting) :
    readType (s.label style type) s = (.ok type, s) := by
  have hparse : TypeExpr.parse (s.label style type) = .ok expr := by
    rw [← h.render_eq]
    exact TypeExpr.parse_eq_ok_iff.mpr
      ⟨⟨h.grammatical, Nat.le_trans h.nesting_le hheight⟩, expr.spells_render⟩
  rw [readType, readTypeIn, readExpr, hparse]
  exact h.resolveIn_eq

/-- The label of a type without parameters is read back as this type, and the store stays as it is,
if arguments are nested less than `1000` levels. For the full label, names and namespaces have to be
type names, and keywords may not have the text of the qualified name of a type that is not generic.
For the short label, keywords and the names that are printed have to be type names, and the names
have to be those by which the declared types are found; nullable marks need nothing. -/
theorem Reachable.readType_label (hs : s.Reachable) (htype : type < s.size)
    (hclosed : s.isOpen type = false) (hheight : (s.tree type).height < maxNesting) :
    ((∀ part d, s.Shows .full type part → s.get? part = some d → s.LegibleInFull d) →
      readType (s.fullLabel type) s = (.ok type, s)) ∧
    ((∀ part d, s.Shows .short type part → s.get? part = some d → s.LegibleInShort part d) →
      readType (s.display type) s = (.ok type, s)) := by
  have hwf := hs.coherent.wellFormed
  constructor
  · intro hlegible
    obtain ⟨expr, hexpr⟩ := hwf.exists_denotes htype hclosed fun part d hpart hd hnot => by
      refine (hlegible part d hpart hd).legible hwf hd fun hkind => ?_
      rw [isOpen, hd, Option.any_some, Descriptor.isOpen, Descriptor.isParameter, hkind] at hnot
      cases hnot
    exact hexpr.readType_eq hheight
  · intro hlegible
    obtain ⟨expr, hexpr⟩ := hwf.exists_denotes htype hclosed fun part d hpart hd _ =>
      (hlegible part d hpart hd).legible hwf.names
    exact hexpr.readType_eq hheight

/-! ## An example -/

/-- `Box<Opt<A>>` in a namespace, where `Opt` is the nullable definition and `A` has a keyword. -/
def labelled : Store := empty.afterAll
  [.declare { Declaration.plain .classType "A" with qualifier := some "App" },
   .addAlias "a" 0,
   .declare { Declaration.plain .valueType "Opt" with
     qualifier := some "App", parameters := ["T"] },
   .giveRole .nullable 1,
   .declare { Declaration.plain .classType "Box" with
     qualifier := some "App", parameters := ["T"] },
   .instantiate 1 [0],
   .instantiate 3 [5]]

theorem eq_or_of_shows (h : s.Shows style type part)
    (hargs : (s.get? type).map Descriptor.arguments = some args) :
    part = type ∨ ∃ arg ∈ args, s.Shows style arg part := by
  cases h with
  | self => exact .inl rfl
  | @argument _ arg _ d hd hkeyword harg hpart =>
    rw [hd, Option.map_some, Option.some_inj] at hargs
    exact .inr ⟨arg, hargs ▸ harg, hpart⟩

theorem parts_of_labelled (h : labelled.Shows style 6 part) : part = 6 ∨ part = 5 ∨ part = 0 := by
  have hbox : (labelled.get? 6).map Descriptor.arguments = some [5] := by decide +kernel
  have hopt : (labelled.get? 5).map Descriptor.arguments = some [0] := by decide +kernel
  have hplain : (labelled.get? 0).map Descriptor.arguments = some [] := by decide +kernel
  rcases eq_or_of_shows h hbox with rfl | ⟨arg, harg, h⟩
  · exact .inl rfl
  obtain rfl := List.mem_singleton.mp harg
  rcases eq_or_of_shows h hopt with rfl | ⟨arg, harg, h⟩
  · exact .inr (.inl rfl)
  obtain rfl := List.mem_singleton.mp harg
  rcases eq_or_of_shows h hplain with rfl | ⟨arg, harg, -⟩
  · exact .inr (.inr rfl)
  · cases harg

/-- The box is read back from both of its labels. -/
theorem readType_label_labelled :
    labelled.fullLabel 6 = "App.Box<App.Opt<App.A>>" ∧ labelled.display 6 = "Box<a?>" ∧
      readType (labelled.fullLabel 6) labelled = (.ok 6, labelled) ∧
      readType (labelled.display 6) labelled = (.ok 6, labelled) := by
  have hbox : labelled.get? 6 = some ⟨"Box", some "App", .classType, .none,
      .instantiation 3 [5] false, none, []⟩ := by decide +kernel
  have hopt : labelled.get? 5 = some ⟨"Opt", some "App", .valueType, ⟨false, false, true⟩,
      .instantiation 1 [0] false, none, []⟩ := by decide +kernel
  have hplain : labelled.get? 0 = some ⟨"A", some "App", .classType, .none, .declared, none,
      []⟩ := by decide +kernel
  have happ : ∀ qualifier, some "App" = some qualifier → IsTypeName qualifier := by
    rintro _ ⟨⟩
    decide +kernel
  obtain ⟨hfull, hshort⟩ := (Reachable.empty.afterAll _ : labelled.Reachable).readType_label
    (lt_of_get? hbox) (by decide +kernel) (by decide +kernel)
  refine ⟨by decide +kernel, by decide +kernel, hfull ?_, hshort ?_⟩
  · intro part d hpart hd
    rcases parts_of_labelled hpart with rfl | rfl | rfl
    · obtain rfl := Option.some.inj (hbox.symm.trans hd)
      exact ⟨by decide +kernel, happ, nofun⟩
    · obtain rfl := Option.some.inj (hopt.symm.trans hd)
      exact ⟨by decide +kernel, happ, nofun⟩
    · obtain rfl := Option.some.inj (hplain.symm.trans hd)
      exact ⟨by decide +kernel, happ, fun _ => by decide +kernel⟩
  · intro part d hpart hd
    rcases parts_of_labelled hpart with rfl | rfl | rfl
    · obtain rfl := Option.some.inj (hbox.symm.trans hd)
      have hnone : labelled.keyword? 6 = none := by decide +kernel
      have hlookup : labelled.lookup "Box" 1 = .ok (labelled.head 6) := by decide +kernel
      exact ⟨fun _ h => (nomatch hnone.symm.trans h), fun _ _ => ⟨by decide +kernel, hlookup⟩⟩
    · -- a mark takes the place of the name
      obtain rfl := Option.some.inj (hopt.symm.trans hd)
      have hnone : labelled.keyword? 5 = none := by decide +kernel
      have hmark : labelled.IsNullableForm 5 0 := ⟨1, false, by decide +kernel, by decide +kernel⟩
      exact ⟨fun _ h => (nomatch hnone.symm.trans h), fun _ h => absurd hmark (h 0)⟩
    · have hkeyword : labelled.keyword? 0 = some "a" := by decide +kernel
      refine ⟨fun keyword h => ?_, fun h => nomatch hkeyword.symm.trans h⟩
      obtain rfl := Option.some.inj (hkeyword.symm.trans h)
      decide +kernel

end Store

end NominalTypes
