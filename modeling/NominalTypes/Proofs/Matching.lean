import NominalTypes.Proofs.Building.Reachable
import NominalTypes.Proofs.Hierarchy.Growth
import NominalTypes.Proofs.Pattern.Derivation

/-!
# Matching is sound up to the variance of arguments

The variables of a pattern may be replaced by what a successful match has bound them to. The
candidate then conforms to the result, which is less than assignability: matching looks for a
supertype of every argument anew, while type arguments are invariant otherwise. Where the arguments
are instances of those of the pattern there is nothing to look for, and the result accepts the
candidate.

- `Store.Conforms`: assignability that extends to type arguments.
- `Store.InstancesOf`: types that come from others by one replacement of parameters.
- `Store.solution`, `Store.solved`: the tree of a pattern with its variables replaced.
- `Store.Matches.conforms`, `Store.Matches.eq_of_instances`: what derivations tell of the result.
- `Store.Reachable.conforms_of_matchBindings`: the main result.
-/

namespace NominalTypes.Store

variable {s t : Store} {candidate pattern result : TypeId}
  {candidates patterns results : List TypeId} {b b' final : Bindings String TypeId}

/-! ## Conformance -/

/-- The candidate may be stored where the target is expected, if type arguments may vary as well. -/
inductive Conforms (s : Store) : TypeId → TypeId → Prop
  | assignable {candidate target : TypeId} (haccepts : s.accepts target candidate = .ok true) :
      Conforms s candidate target
  /-- The arguments that the candidate presents conform to those of the target. -/
  | arguments {candidate target definition : TypeId} {args : List TypeId} {d : Descriptor}
      (hd : s.get? target = some d) (hdefinition : s.definitionOf? target = some definition)
      (hpresents : s.Presents candidate definition args)
      (arguments : List.Forall₂ (Conforms s) args d.arguments) : Conforms s candidate target

/-- Some types are instances of others if they come from them by one replacement of generic
parameters. -/
def InstancesOf (s : Store) (types patterns : List TypeId) : Prop :=
  ∃ replaced : TypeId → Option TypeTree,
    (∀ leaf, s.isParameter leaf = false → replaced leaf = none) ∧
      types.map s.tree = patterns.map fun pattern => (s.tree pattern).subst replaced

/-! ## Solutions -/

/-- What takes the place of a variable: the type that all its occurrences are bound to. -/
def solution (s : Store) (b : Bindings String TypeId) (param : TypeId) : Option TypeTree :=
  (s.variableName? param).bind fun name => (b.unique? name).map s.tree

/-- The tree of a pattern with all its variables replaced. -/
def solved (s : Store) (b : Bindings String TypeId) (pattern : TypeId) : TypeTree :=
  (s.tree pattern).subst (s.solution b)

/-- A plain type stays. -/
theorem solved_of_plain (hname : s.variableName? pattern = none)
    (hplain : s.definitionOf? pattern = none) : s.solved b pattern = s.tree pattern := by
  rw [solved, tree_leaf hplain, TypeTree.subst, solution, hname]
  rfl

namespace WellFormed

/-- A bound variable is replaced by what it is bound to. -/
theorem solved_of_binds (hs : s.WellFormed) (hb : b.isConsistent = true) {name : String}
    (hname : s.variableName? pattern = some name) (hbinds : b.Binds name candidate) :
    s.solved b pattern = s.tree candidate := by
  have hparameter : s.isParameter pattern = true := by
    rw [← variableName?_isSome, hname]
    rfl
  rw [solved, hs.tree_parameter hparameter, TypeTree.subst, solution, hname, Option.bind_some,
    Bindings.unique?_of_binds hb hbinds]
  rfl

/-- In a generic type the arguments are replaced. -/
theorem solved_of_generic (hs : s.WellFormed) {p : Descriptor} {definition : TypeId}
    (hp : s.get? pattern = some p) (hdefinition : s.definitionOf? pattern = some definition) :
    s.solved b pattern = .node definition (p.arguments.map (s.solved b)) := by
  rw [solved, hs.tree_generic hp hdefinition, TypeTree.subst, List.map_map]
  rfl

end WellFormed

/-! ## Soundness -/

/-- Consistent bindings of the types of a store, and a later store that the results belong to. -/
structure Solves (s t : Store) (b : Bindings String TypeId) : Prop where
  earlier : s.WellFormed
  later : t.WellFormed
  grows : s.Grows t
  consistent : b.isConsistent = true

namespace Solves

/-- A result that reads as an old type is the old type. -/
theorem eq_of_tree_eq (h : s.Solves t final) {type : TypeId} (htype : type < s.size)
    (hresult : result < t.size) (htree : t.tree result = s.tree type) : result = type :=
  h.later.tree_injective hresult (Nat.lt_of_lt_of_le htype h.grows.size_le)
    (htree.trans (h.grows.keepsOutlines.tree_eq h.earlier htype).symm)

theorem eq_of_binds (h : s.Solves t final) (hcandidate : candidate < s.size)
    (hresult : result < t.size) (htree : t.tree result = s.solved final pattern) {name : String}
    (hname : s.variableName? pattern = some name) (hbinds : final.Binds name candidate) :
    result = candidate := by
  rw [h.earlier.solved_of_binds h.consistent hname hbinds] at htree
  exact h.eq_of_tree_eq hcandidate hresult htree

theorem eq_of_plain (h : s.Solves t final) (hpattern : pattern < s.size)
    (hresult : result < t.size) (htree : t.tree result = s.solved final pattern)
    (hname : s.variableName? pattern = none) (hplain : s.definitionOf? pattern = none) :
    result = pattern := by
  rw [solved_of_plain hname hplain] at htree
  exact h.eq_of_tree_eq hpattern hresult htree

/-- A result with the definition and the arguments of an old type is the old type. -/
theorem eq_of_generic (h : s.Solves t final) {d c : Descriptor} {type definition : TypeId}
    (hd : t.get? result = some d) (hresult : t.definitionOf? result = some definition)
    (hc : s.get? type = some c) (htype : s.definitionOf? type = some definition)
    (hargs : d.arguments = c.arguments) : result = type := by
  have hc' := (h.grows.get?_eq (lt_of_get? hc)).trans hc
  have htype' := (h.grows.keepsTypes.definitionOf?_eq (lt_of_get? hc)).trans htype
  refine h.later.tree_injective (lt_of_get? hd) (lt_of_get? hc') ?_
  rw [h.later.tree_generic hd hresult, h.later.tree_generic hc' htype', hargs]

/-- The result of a generic pattern has the same definition, and its arguments are the results of
the arguments. -/
theorem of_generic (h : s.Solves t final) (hresult : result < t.size)
    (htree : t.tree result = s.solved final pattern) {p : Descriptor} {definition : TypeId}
    (hp : s.get? pattern = some p) (hdefinition : s.definitionOf? pattern = some definition) :
    ∃ d, t.get? result = some d ∧ t.definitionOf? result = some definition ∧
      (∀ arg ∈ d.arguments, arg < t.size) ∧
      d.arguments.map t.tree = p.arguments.map (s.solved final) := by
  rw [h.earlier.solved_of_generic hp hdefinition] at htree
  obtain ⟨d, hd, hgeneric, harguments⟩ := h.later.of_tree_eq_node hresult htree
  exact ⟨d, hd, hgeneric, h.later.arguments_lt hd, harguments⟩

end Solves

/-- Candidates conform to what becomes of the patterns that they match. -/
theorem Matches.conforms (h : s.Matches candidates patterns b b') (hfinal : s.Solves t final)
    (hb : ∀ name value, b'.Binds name value → final.Binds name value)
    (hresults : ∀ result ∈ results, result < t.size)
    (htrees : results.map t.tree = patterns.map (s.solved final)) :
    List.Forall₂ t.Conforms candidates results := by
  induction h generalizing results with
  | nil =>
    rw [List.map_nil, List.map_eq_nil_iff] at htrees
    rw [htrees]
    exact .nil
  | binding hcandidate hname others ih =>
    obtain ⟨result, results, rfl, htree, hrest⟩ := List.map_eq_cons_iff.mp htrees
    obtain ⟨hresult, hresults⟩ := List.forall_mem_cons.mp hresults
    refine .cons ?_ (ih hb hresults hrest)
    have hbinds := hb _ _ (others.binds (Bindings.binds_bind_self _ _ _))
    obtain rfl := hfinal.eq_of_binds hcandidate hresult htree hname hbinds
    exact .assignable (accepts_self hresult)
  | plain hname hplain haccepts others ih =>
    -- a plain pattern stays as it is, and old answers hold in the later store
    obtain ⟨result, results, rfl, htree, hrest⟩ := List.map_eq_cons_iff.mp htrees
    obtain ⟨hresult, hresults⟩ := List.forall_mem_cons.mp hresults
    refine .cons ?_ (ih hb hresults hrest)
    obtain ⟨hpattern, hcandidate⟩ := lt_of_accepts haccepts
    obtain rfl := hfinal.eq_of_plain hpattern hresult htree hname hplain
    refine .assignable ?_
    rw [hfinal.grows.keepsTypes.accepts_eq hfinal.earlier hpattern hcandidate]
    exact haccepts
  | generic hp hdefinition hpresents arguments others ihArguments ih =>
    obtain ⟨result, results, rfl, htree, hrest⟩ := List.map_eq_cons_iff.mp htrees
    obtain ⟨hresult, hresults⟩ := List.forall_mem_cons.mp hresults
    refine .cons ?_ (ih hb hresults hrest)
    -- what the arguments bind is kept by what follows them
    obtain ⟨d, hd, htarget, harguments, htrees⟩ :=
      hfinal.of_generic hresult htree hp hdefinition
    refine .arguments hd htarget (hpresents.later hfinal.earlier hfinal.grows) ?_
    exact ihArguments (fun name value hbound => hb name value (others.binds hbound)) harguments
      htrees

/-- Candidates that are instances of the patterns are what becomes of these. -/
theorem Matches.eq_of_instances (h : s.Matches candidates patterns b b')
    (hfinal : s.Solves t final) (hb : ∀ name value, b'.Binds name value → final.Binds name value)
    (hinstances : s.InstancesOf candidates patterns)
    (hresults : ∀ result ∈ results, result < t.size)
    (htrees : results.map t.tree = patterns.map (s.solved final)) : results = candidates := by
  obtain ⟨replaced, hreplaced, hinstances⟩ := hinstances
  induction h generalizing results with
  | nil => exact List.map_eq_nil_iff.mp htrees
  | binding hcandidate hname others ih =>
    obtain ⟨result, results, rfl, htree, hrest⟩ := List.map_eq_cons_iff.mp htrees
    obtain ⟨hresult, hresults⟩ := List.forall_mem_cons.mp hresults
    obtain ⟨-, hinstances⟩ := List.cons.inj hinstances
    have hbinds := hb _ _ (others.binds (Bindings.binds_bind_self _ _ _))
    rw [hfinal.eq_of_binds hcandidate hresult htree hname hbinds, ih hb hresults hrest hinstances]
  | plain hname hplain haccepts others ih =>
    obtain ⟨result, results, rfl, htree, hrest⟩ := List.map_eq_cons_iff.mp htrees
    obtain ⟨hresult, hresults⟩ := List.forall_mem_cons.mp hresults
    obtain ⟨hinstance, hinstances⟩ := List.cons.inj hinstances
    obtain ⟨hpattern, hcandidate⟩ := lt_of_accepts haccepts
    have hparameter := congrArg Option.isSome hname
    rw [variableName?_isSome] at hparameter
    dsimp only at hinstance
    rw [tree_leaf hplain, TypeTree.subst, hreplaced _ hparameter] at hinstance
    rw [hfinal.eq_of_plain hpattern hresult htree hname hplain, ih hb hresults hrest hinstances,
      eq_of_tree_eq_leaf hinstance]
  | generic hp hdefinition hpresents arguments others ihArguments ih =>
    obtain ⟨result, results, rfl, htree, hrest⟩ := List.map_eq_cons_iff.mp htrees
    obtain ⟨hresult, hresults⟩ := List.forall_mem_cons.mp hresults
    obtain ⟨hinstance, hinstances⟩ := List.cons.inj hinstances
    obtain ⟨d, hd, htarget, harguments, htrees⟩ :=
      hfinal.of_generic hresult htree hp hdefinition
    dsimp only at hinstance
    rw [hfinal.earlier.tree_generic hp hdefinition, TypeTree.subst, List.map_map] at hinstance
    -- an instance of a generic pattern has its definition, and presents its own arguments
    obtain ⟨c, hc, hself, htrees'⟩ :=
      hfinal.earlier.of_tree_eq_node hpresents.candidate_lt hinstance
    obtain rfl := hpresents.eq_arguments hc hself
    have hargs : d.arguments = c.arguments :=
      ihArguments (fun name value hbound => hb name value (others.binds hbound)) harguments htrees
        htrees'
    have hsame := hfinal.eq_of_generic hd htarget hc hself hargs
    rw [hsame, ih hb hresults hrest hinstances]

/-- Candidates that match variables are instances of them. -/
theorem Matches.instancesOf_of_parameters (h : s.Matches candidates patterns b b')
    (hs : s.WellFormed) (hfinal : final.isConsistent = true)
    (hb : ∀ name value, b'.Binds name value → final.Binds name value)
    (hpatterns : ∀ pattern ∈ patterns, s.isParameter pattern = true) :
    s.InstancesOf candidates patterns := by
  refine ⟨s.solution final, fun leaf hleaf => ?_, ?_⟩
  · rw [← variableName?_isSome, Option.isSome_eq_false_iff, Option.isNone_iff_eq_none] at hleaf
    rw [solution, hleaf]
    rfl
  show candidates.map s.tree = patterns.map (s.solved final)
  induction h with
  | nil => rfl
  | binding hcandidate hname others ih =>
    have hbinds := hb _ _ (others.binds (Bindings.binds_bind_self _ _ _))
    rw [List.map_cons, List.map_cons, hs.solved_of_binds hfinal hname hbinds,
      ih hb (List.forall_mem_cons.mp hpatterns).2]
  | plain hname =>
    have hparameter := hpatterns _ List.mem_cons_self
    rw [← variableName?_isSome, hname] at hparameter
    cases hparameter
  | generic hp hdefinition =>
    have hleaf := hs.tree_parameter (hpatterns _ List.mem_cons_self)
    rw [hs.tree_generic hp hdefinition] at hleaf
    cases hleaf

/-- What becomes of a generic pattern accepts the candidate if the arguments that the candidate
presents are instances of those of the pattern, and always if these are variables. -/
theorem Matches.accepts_of_instances (h : s.Matches [candidate] [pattern] b final)
    (hfinal : s.Solves t final) (hresult : result < t.size)
    (htree : t.tree result = s.solved final pattern) {p : Descriptor} {definition : TypeId}
    {args : List TypeId} (hp : s.get? pattern = some p)
    (hdefinition : s.definitionOf? pattern = some definition)
    (hpresents : s.Presents candidate definition args)
    (hargs : (∀ arg ∈ p.arguments, s.isParameter arg = true) ∨ s.InstancesOf args p.arguments) :
    t.accepts result candidate = .ok true := by
  have hs := hfinal.earlier
  cases h with
  | binding _ hname =>
    have hparameter := congrArg Option.isSome hname
    rw [variableName?_isSome] at hparameter
    have hleaf := hs.tree_parameter hparameter
    rw [hs.tree_generic hp hdefinition] at hleaf
    cases hleaf
  | plain _ hplain =>
    rw [hdefinition] at hplain
    cases hplain
  | generic hp' hdefinition' hpresents' arguments others =>
    cases others
    rw [hp] at hp'
    cases hp'
    rw [hdefinition] at hdefinition'
    cases hdefinition'
    obtain rfl := hpresents.unique hpresents'
    have hinstances : s.InstancesOf args p.arguments := hargs.elim
      (arguments.instancesOf_of_parameters hs hfinal.consistent fun _ _ => id) id
    obtain ⟨d, hd, htarget, harguments, htrees⟩ := hfinal.of_generic hresult htree hp hdefinition
    have hsame : d.arguments = args :=
      arguments.eq_of_instances hfinal (fun _ _ => id) hinstances harguments htrees
    exact (hpresents.later hs hfinal.grows).accepts hfinal.later hd htarget hsame

/-- What becomes of a variable or of a type that is not generic accepts the candidate. -/
theorem Matches.accepts_of_not_generic (h : s.Matches [candidate] [pattern] b final)
    (hfinal : s.Solves t final) (hresult : result < t.size)
    (htree : t.tree result = s.solved final pattern) (hpattern : s.definitionOf? pattern = none) :
    t.accepts result candidate = .ok true := by
  cases h with
  | binding hcandidate hname others =>
    have hbinds := others.binds (Bindings.binds_bind_self _ _ _)
    obtain rfl := hfinal.eq_of_binds hcandidate hresult htree hname hbinds
    exact accepts_self hresult
  | plain hname hplain haccepts others =>
    obtain ⟨hknown, hcandidate⟩ := lt_of_accepts haccepts
    obtain rfl := hfinal.eq_of_plain hknown hresult htree hname hplain
    rw [hfinal.grows.keepsTypes.accepts_eq hfinal.earlier hknown hcandidate]
    exact haccepts
  | generic _ hdefinition =>
    rw [hpattern] at hdefinition
    cases hdefinition

/-- The bindings of a match come from a derivation. -/
theorem WellFormed.matches_of_matchBindings (hs : s.WellFormed)
    (h : s.matchBindings candidate pattern = .ok (some b)) :
    s.Matches [candidate] [pattern] .empty b := by
  obtain ⟨⟨matched, b'⟩, hinto, hok⟩ := bind_eq_ok.mp h
  cases matched with
  | false => cases hok
  | true =>
    cases hok
    exact hs.matches_of_matchInto hinto

/-- A match is sound up to the variance of arguments. Let all occurrences of each variable of the
pattern be bound to the same type, and let a type of the same or of a later store read as the
pattern with the variables replaced by these types: the candidate conforms to it. It accepts the
candidate if the pattern is a variable or not generic; and otherwise if the arguments that the
candidate presents are instances of those of the pattern, as they are whenever these are
variables. -/
theorem Reachable.conforms_of_matchBindings (hs : s.Reachable) (ht : t.Reachable)
    (hst : s.Grows t) (hmatch : s.matchBindings candidate pattern = .ok (some b))
    (hb : b.isConsistent = true) (hresult : result < t.size)
    (htree : t.tree result = s.solved b pattern) :
    t.Conforms candidate result ∧
      (s.definitionOf? pattern = none → t.accepts result candidate = .ok true) ∧
      ∀ (p : Descriptor) (definition : TypeId) (args : List TypeId), s.get? pattern = some p →
        s.definitionOf? pattern = some definition → s.Presents candidate definition args →
        (∀ arg ∈ p.arguments, s.isParameter arg = true) ∨ s.InstancesOf args p.arguments →
          t.accepts result candidate = .ok true := by
  have hsolves : s.Solves t b := ⟨hs.coherent.wellFormed, ht.coherent.wellFormed, hst, hb⟩
  have h := hsolves.earlier.matches_of_matchBindings hmatch
  refine ⟨?_, h.accepts_of_not_generic hsolves hresult htree, ?_⟩
  · have hconforms : List.Forall₂ t.Conforms [candidate] [result] :=
      h.conforms hsolves (fun _ _ => id) (List.forall_mem_singleton.mpr hresult)
        (congrArg (fun tree => [tree]) htree)
    exact (List.forall₂_cons.mp hconforms).1
  · intro p definition args hp hdefinition hpresents hargs
    exact h.accepts_of_instances hsolves hresult htree hp hdefinition hpresents hargs

/-! ## Nested arguments -/

/-- Interfaces `I<T>` and `J<T>`, the second of which extends the first, a class `A`, and the types
`I<J<A>>` and `I<I<A>>`. -/
def nestedTypes : Store :=
  let extended : Declaration :=
    { Declaration.plain .interface "J" with parameters := ["T"], interfaces := ["I<T>"] }
  let declared := (Operation.declare
    { Declaration.plain .interface "I" with parameters := ["T"] }).perform.after .empty
  let declared := (Operation.declare extended).perform.after declared
  let declared := (Operation.declare (.plain .classType "A")).perform.after declared
  let read := (Operation.readType "I<J<A>>").perform.after declared
  (Operation.readType "I<I<A>>").perform.after read

/-- The same types and the pattern `I<I<X>>` with the variable `X`. -/
def nested : Store := (Operation.readPattern "I<I<X>>" ["X"]).perform.after nestedTypes

theorem reachable_nestedTypes : nestedTypes.Reachable :=
  .step _ (.step _ (.step _ (.step _ (.step _ .empty))))

theorem reachable_nested : nested.Reachable := .step _ reachable_nestedTypes

theorem grows_nested : nested.Grows nested := reachable_nested.coherent.wellFormed.closed.grows_refl

theorem readPattern_nested : (readPattern "I<I<X>>" ["X"]).run nestedTypes = (.ok 12, nested) :=
  Prod.ext (by decide +kernel) (Build.after_dropped _ _).symm

/-- The descriptor of `I<X>`. -/
theorem get?_nested : nested.get? 11 =
    some ⟨"I", none, .interface, .none, .instantiation 0 [10] true, none, []⟩ := by
  decide +kernel

/-- `I<I<A>>` is the pattern with `A` in the place of `X`, and so are their arguments. -/
theorem tree_nested :
    nested.tree 9 = nested.solved ⟨[("X", [5])]⟩ 12 ∧
      nested.tree 7 = nested.solved ⟨[("X", [5])]⟩ 11 := by
  have hs := reachable_nested.coherent.wellFormed
  have hX : nested.solved ⟨[("X", [5])]⟩ 10 = nested.tree 5 := by
    have hname : nested.variableName? 10 = some "X" := by decide +kernel
    exact hs.solved_of_binds (by decide) hname ⟨[5], by decide, List.mem_singleton_self 5⟩
  have hinner : nested.tree 7 = nested.solved ⟨[("X", [5])]⟩ 11 := by
    have ho : nested.origin? 7 = some (.instantiation 0 [5] false) := by decide +kernel
    have hdefinition : nested.definitionOf? 11 = some 0 := by decide +kernel
    rw [hs.tree_instantiation ho, hs.solved_of_generic get?_nested hdefinition]
    exact congrArg (fun tree => TypeTree.node 0 [tree]) hX.symm
  refine ⟨?_, hinner⟩
  have ho : nested.origin? 9 = some (.instantiation 0 [7] false) := by decide +kernel
  have hp : nested.get? 12 = some ⟨"I", none, .interface, .none, .instantiation 0 [11] true,
      none, []⟩ := by decide +kernel
  have hdefinition : nested.definitionOf? 12 = some 0 := by decide +kernel
  rw [hs.tree_instantiation ho, hs.solved_of_generic hp hdefinition]
  exact congrArg (fun tree => TypeTree.node 0 [tree]) hinner

/-- `I<J<A>>` matches `I<I<X>>`, but `I<I<A>>` does not accept it. -/
theorem not_sound_of_nested :
    ¬ ∀ (start s t : Store) (text : String) (vars : List String) (candidate pattern result : TypeId)
      (b : Bindings String TypeId), start.Reachable →
      (readPattern text vars).run start = (.ok pattern, s) →
      s.matchBindings candidate pattern = .ok (some b) → b.isConsistent = true → t.Reachable →
      s.Grows t → result < t.size → t.tree result = s.solved b pattern →
        t.accepts result candidate = .ok true := by
  intro hsound
  have haccepts := hsound nestedTypes nested nested "I<I<X>>" ["X"] 8 12 9 ⟨[("X", [5])]⟩
    reachable_nestedTypes readPattern_nested (by decide +kernel) (by decide) reachable_nested
    grows_nested (by decide +kernel) tree_nested.1
  have hrefuses : nested.accepts 9 8 = .ok false := by decide +kernel
  rw [hrefuses] at haccepts
  cases haccepts

/-- `I<J<A>>` conforms to `I<I<A>>`, and `I<A>` accepts `J<A>`. -/
theorem conforms_nested : nested.Conforms 8 9 ∧ nested.accepts 7 6 = .ok true := by
  have hs := reachable_nested
  have hfound : nested.get? 7 = some ⟨"I", none, .interface, .none, .instantiation 0 [5] false,
      none, []⟩ := by decide +kernel
  have hpresents : nested.Presents 6 0 [5] :=
    .supertype (by decide +kernel) (fun hrole => absurd hrole (by decide +kernel)) hfound
  have hopen : ∀ arg ∈ [10], nested.isParameter arg = true := by decide +kernel
  constructor
  · exact (hs.conforms_of_matchBindings hs grows_nested (b := ⟨[("X", [5])]⟩) (by decide +kernel)
      (by decide) (by decide +kernel) tree_nested.1).1
  · exact (hs.conforms_of_matchBindings hs grows_nested (b := ⟨[("X", [5])]⟩) (by decide +kernel)
      (by decide) (by decide +kernel) tree_nested.2).2.2 _ 0 [5] get?_nested (by decide +kernel)
        hpresents (.inl hopen)

end NominalTypes.Store
