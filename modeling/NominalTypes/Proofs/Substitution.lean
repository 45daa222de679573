import NominalTypes.Proofs.Building.Registry
import NominalTypes.Proofs.GroundPatterns
import NominalTypes.Proofs.Identity
import NominalTypes.Proofs.Pattern.Captures

/-!
# Matching undoes substitution

A type that comes from a pattern by replacement of its parameters matches the pattern, and every
parameter is bound to what has taken its place. At each level the type has the definition of the
pattern itself, so no supertype is looked for; and if replacement turns the pattern into a
definition applied to its own parameters, then the type is the definition, which presents just
these.

- `Store.assigning`, `Store.assignedTo`: types that take the place of parameters.
- `Store.WellFormed.captures_of_subst`: what has taken the place of a parameter is captured.
- `Store.UndoesSubstitution`: the statement, with closed types and definitions as special cases.
- `Store.Reachable.undoesSubstitution`: the main result.
-/

namespace NominalTypes

/-! ## Bindings of distinct variables -/

namespace Bindings

variable {α β : Type} [DecidableEq α] {b : Bindings α β}

theorem nodup_names_bind (hb : b.names.Nodup) (name : α) (value : β) :
    (b.bind name value).names.Nodup := by
  rw [names_bind]
  split
  · exact hb
  · next hnew =>
    refine List.nodup_append.mpr ⟨hb, List.pairwise_singleton _ _, fun other hother => ?_⟩
    rintro _ hname rfl
    rw [List.mem_singleton] at hname
    exact hnew (hname ▸ hother)

/-- Every variable has one entry. -/
theorem nodup_names_bindAll (hb : b.names.Nodup) (entries : List (α × β)) :
    (b.bindAll entries).names.Nodup := by
  induction entries generalizing b with
  | nil => exact hb
  | cons entry rest ih => exact ih (nodup_names_bind hb entry.1 entry.2)

/-- Bindings with one entry for each variable are told by their variables and by what these are
bound to. -/
theorem entries_eq_of_nodup (hb : b.names.Nodup) :
    b.entries = b.names.map fun name => (name, (b.get? name).getD []) := by
  have hentry : ∀ entry ∈ b.entries, (entry.1, (b.get? entry.1).getD []) = entry := by
    rintro ⟨name, values⟩ hmem
    obtain ⟨before, after, heq⟩ := List.append_of_mem hmem
    have hlookup : b.get? name = some values := by
      refine List.lookup_eq_some_iff.mpr ⟨before, after, heq, fun entry hentry => ?_⟩
      rw [names, heq, List.map_append, List.nodup_append] at hb
      have hne := hb.2.2 entry.1 (List.mem_map_of_mem hentry) name List.mem_cons_self
      exact bne_iff_ne.mpr (Ne.symm hne)
    rw [hlookup]
    rfl
  rw [names, List.map_map]
  exact ((List.map_congr_left hentry).trans (List.map_id _)).symm

/-- Variables that have not been bound get an entry each. -/
theorem entries_bindAll_of_nodup (entries : List (α × β)) :
    ∀ {b : Bindings α β}, (b.names ++ entries.map Prod.fst).Nodup →
      (b.bindAll entries).entries = b.entries ++ entries.map fun entry => (entry.1, [entry.2]) := by
  have hbindIn : ∀ (name : α) (value : β) (bound : List (α × List β)),
      name ∉ bound.map Prod.fst → bindIn name value bound = bound ++ [(name, [value])] := by
    intro name value bound
    induction bound with
    | nil => exact fun _ => rfl
    | cons entry rest ih =>
      intro hnew
      rw [List.map_cons, List.mem_cons, not_or] at hnew
      rw [bindIn, if_neg (Ne.symm hnew.1), ih hnew.2, List.cons_append]
  induction entries with
  | nil => exact fun _ => (List.append_nil _).symm
  | cons entry rest ih =>
    intro b hnodup
    have hnew : entry.1 ∉ b.names := fun hmem =>
      (List.nodup_append.mp hnodup).2.2 entry.1 hmem entry.1 List.mem_cons_self rfl
    have hbind : (b.bind entry.1 entry.2).entries = b.entries ++ [(entry.1, [entry.2])] :=
      hbindIn entry.1 entry.2 b.entries hnew
    rw [bindAll_cons, ih, hbind, List.append_assoc, List.map_cons, List.singleton_append]
    rw [names_bind, if_neg hnew, List.append_assoc, List.singleton_append]
    exact hnodup

end Bindings

namespace Store

variable {s : Store} {candidate pattern : TypeId} {assigned : TypeId → TypeId}

/-! ## Assignments -/

/-- The trees of the types that are assigned to generic parameters. -/
def assigning (s : Store) (assigned : TypeId → TypeId) (leaf : TypeId) : Option TypeTree :=
  if s.isParameter leaf then some (s.tree (assigned leaf)) else none

/-- The types that are assigned to the variables of a tree, from left to right. -/
def assignedTo (s : Store) (assigned : TypeId → TypeId) (tree : TypeTree) :
    List (String × TypeId) :=
  tree.leaves.filterMap fun leaf => (s.variableName? leaf).map fun name => (name, assigned leaf)

/-- What is assigned to the parameters among the leaves of a tree is known. -/
def AssignsKnown (s : Store) (assigned : TypeId → TypeId) (tree : TypeTree) : Prop :=
  ∀ leaf ∈ tree.leaves, s.isParameter leaf = true → assigned leaf < s.size

theorem assignedTo_node (s : Store) (assigned : TypeId → TypeId) (definition : TypeId)
    (trees : List TypeTree) : s.assignedTo assigned (.node definition trees) =
      trees.flatMap (s.assignedTo assigned) := by
  rw [assignedTo, TypeTree.leaves, List.filterMap_flatMap]
  rfl

/-- The variables are those of the tree. -/
theorem map_fst_assignedTo (s : Store) (assigned : TypeId → TypeId) (tree : TypeTree) :
    (s.assignedTo assigned tree).map Prod.fst = s.variablesIn tree := by
  rw [assignedTo, variablesIn, List.map_filterMap]
  refine List.filterMap_congr fun leaf _ => ?_
  cases s.variableName? leaf <;> rfl

/-- What a name is assigned is what its occurrences are. -/
theorem filter_assignedTo (s : Store) (assigned : TypeId → TypeId) (tree : TypeTree)
    (name : String) : ((s.assignedTo assigned tree).filter (·.1 = name)).map Prod.snd =
      (tree.leaves.filter fun leaf => s.variableName? leaf = some name).map assigned := by
  rw [assignedTo]
  induction tree.leaves with
  | nil => rfl
  | cons leaf leaves ih =>
    cases hname : s.variableName? leaf with
    | none => simpa [hname] using ih
    | some other => by_cases heq : other = name <;> simpa [hname, heq] using ih

mutual

/-- A type that reads as a tree with its parameters replaced matches, and what is captured is what
has taken their places. -/
theorem WellFormed.captures_of_subst (hs : s.WellFormed) :
    ∀ (tree : TypeTree) {candidate : TypeId}, candidate < s.size →
      s.AssignsKnown assigned tree → s.tree candidate = tree.subst (s.assigning assigned) →
      s.captures tree candidate = (true, s.assignedTo assigned tree)
  | .leaf type, candidate, hcandidate, hknown, htree => by
    rw [TypeTree.subst, assigning] at htree
    rw [captures, assignedTo, TypeTree.leaves]
    by_cases hparameter : s.isParameter type = true
    · rw [if_pos hparameter, Option.getD_some] at htree
      obtain ⟨name, hname, -⟩ := shape_parameter hparameter
      have hleaf : type ∈ (TypeTree.leaf type).leaves := by
        rw [TypeTree.leaves]
        exact List.mem_singleton_self type
      have hlt := hknown type hleaf hparameter
      rw [hs.tree_injective hcandidate hlt htree]
      simp [hname]
    · rw [if_neg hparameter, Option.getD_none] at htree
      rw [eq_of_tree_eq_leaf htree] at hcandidate ⊢
      have hname : s.variableName? type = none := by
        rwa [← Option.not_isSome_iff_eq_none, variableName?_isSome]
      simp [hname, accepts_self hcandidate, Except.toOption]
  | .node definition trees, candidate, hcandidate, hknown, htree => by
    rw [TypeTree.subst] at htree
    obtain ⟨c, hc, hdefinition, hargs⟩ := hs.of_tree_eq_node hcandidate htree
    rw [captures, presented?_self hc hdefinition, assignedTo_node]
    refine WellFormed.capturesAll_of_subst hs trees (hs.arguments_lt hc) ?_ hargs
    intro tree htree' leaf hleaf
    refine hknown leaf ?_
    rw [TypeTree.leaves]
    exact List.mem_flatMap.mpr ⟨tree, htree', hleaf⟩

theorem WellFormed.capturesAll_of_subst (hs : s.WellFormed) :
    ∀ (trees : List TypeTree) {args : List TypeId}, (∀ arg ∈ args, arg < s.size) →
      (∀ tree ∈ trees, s.AssignsKnown assigned tree) →
      args.map s.tree = trees.map (TypeTree.subst (s.assigning assigned)) →
      s.capturesAll trees args = (true, trees.flatMap (s.assignedTo assigned))
  | [], [], _, _, _ => rfl
  | [], _ :: _, _, _, htrees => by cases htrees
  | _ :: _, [], _, _, htrees => by cases htrees
  | tree :: trees, arg :: args, hargs, hknown, htrees => by
    obtain ⟨harg, hargs⟩ := List.forall_mem_cons.mp hargs
    obtain ⟨htree, hknown⟩ := List.forall_mem_cons.mp hknown
    obtain ⟨hfirst, hothers⟩ := List.cons.inj htrees
    rw [capturesAll, WellFormed.captures_of_subst hs tree harg htree hfirst,
      WellFormed.capturesAll_of_subst hs trees hargs hknown hothers, List.flatMap_cons]

end

/-! ## The bindings of a match -/

/-- The bindings of each name to what its occurrences in a tree are assigned, with the names in the
order of their first occurrence. -/
def assignedBindings (s : Store) (assigned : TypeId → TypeId) (tree : TypeTree) :
    Bindings String TypeId :=
  ⟨(s.variablesIn tree).eraseDups.map fun name =>
    (name, (tree.leaves.filter fun leaf => s.variableName? leaf = some name).map assigned)⟩

theorem bindAll_assignedTo (s : Store) (assigned : TypeId → TypeId) (tree : TypeTree) :
    Bindings.empty.bindAll (s.assignedTo assigned tree) = s.assignedBindings assigned tree := by
  have hnames : (Bindings.empty.bindAll (s.assignedTo assigned tree)).names =
      (s.variablesIn tree).eraseDups := by
    rw [Bindings.names_bindAll, map_fst_assignedTo]
    simp [Bindings.empty, Bindings.names]
  have hentries := Bindings.entries_eq_of_nodup
    (Bindings.nodup_names_bindAll (b := .empty) List.nodup_nil (s.assignedTo assigned tree))
  rw [hnames] at hentries
  refine congrArg Bindings.mk (hentries.trans (List.map_congr_left fun name _ => ?_))
  rw [Bindings.getD_get?_bindAll, filter_assignedTo]
  rfl

/-- A type that comes from a pattern by replacement of its parameters matches the pattern. -/
theorem WellFormed.matchBindings_of_subst (hs : s.WellFormed) (hcandidate : candidate < s.size)
    (hpattern : pattern < s.size) (hknown : s.AssignsKnown assigned (s.tree pattern))
    (htree : s.tree candidate = (s.tree pattern).subst (s.assigning assigned)) :
    s.matchBindings candidate pattern =
      .ok (some (Bindings.empty.bindAll (s.assignedTo assigned (s.tree pattern)))) := by
  rw [hs.matchBindings_eq_captures hcandidate hpattern,
    hs.captures_of_subst (s.tree pattern) hcandidate hknown htree]
  rfl

/-! ## Definitions -/

/-- The leaves of a definition are its parameters. -/
theorem leaves_definition {definition : TypeId} {params : List TypeId}
    (ho : s.origin? definition = some (.definition params)) :
    (s.tree definition).leaves = params := by
  rw [tree_definition ho, TypeTree.leaves, List.flatMap_map]
  clear ho
  induction params with
  | nil => rfl
  | cons param params ih => rw [List.flatMap_cons, TypeTree.leaves, List.singleton_append, ih]

/-- The parameters of a definition are assigned the arguments of a type that is built from it. -/
theorem WellFormed.map_assigned_parameters (hs : s.WellFormed) {definition : TypeId}
    {params args : List TypeId} (ho : s.origin? definition = some (.definition params))
    (hlength : params.length = args.length) :
    params.map (fun param => (assigned? params args param).getD param) = args := by
  refine List.ext_getElem (by rw [List.length_map, hlength]) fun position hparam harg => ?_
  rw [List.length_map] at hparam
  rw [List.getElem_map, hs.assigned?_parameter ho (List.getElem?_eq_getElem hparam)
    (List.getElem?_eq_getElem harg)]
  rfl

/-- The names of the parameters of a definition are distinct. -/
theorem Registered.exists_names (hs : s.Registered) (hwf : s.WellFormed) {definition : TypeId}
    {params : List TypeId} (ho : s.origin? definition = some (.definition params)) :
    ∃ names : List String, params.map s.variableName? = names.map some ∧ names.Nodup := by
  have hnames : params.map s.variableName? =
      (params.map fun param => (s.variableName? param).getD "").map some := by
    rw [List.map_map]
    refine List.map_congr_left fun param hparam => ?_
    obtain ⟨name, hname, -⟩ := shape_parameter (hwf.isParameter_of_mem ho hparam)
    rw [Function.comp_apply, hname]
    rfl
  refine ⟨_, hnames, ?_⟩
  have hnodup := hs.parameters definition params ho
  have hsame : params.map s.name? = params.map s.variableName? := by
    refine List.map_congr_left fun param hparam => ?_
    obtain ⟨d, hd, hparameter⟩ := (Option.any_eq_true _ _).mp (hwf.isParameter_of_mem ho hparam)
    rw [name?, hd, variableName?_of_get? hd, if_pos hparameter]
    rfl
  rw [hsame, hnames] at hnodup
  exact List.Nodup.of_map some hnodup

theorem assignedTo_parameters {params args : List TypeId} {names : List String}
    (hnames : params.map s.variableName? = names.map some) (hargs : params.map assigned = args) :
    (params.filterMap fun leaf => (s.variableName? leaf).map fun name => (name, assigned leaf)) =
      names.zip args := by
  subst hargs
  induction params generalizing names with
  | nil =>
    cases names with
    | nil => rfl
    | cons => cases hnames
  | cons param params ih =>
    cases names with
    | nil => cases hnames
    | cons name names =>
      obtain ⟨hname, hnames⟩ := List.cons.inj hnames
      rw [List.filterMap_cons, hname, List.map_cons, List.zip_cons_cons]
      exact congrArg _ (ih hnames)

/-- A closed type matches itself, for nothing is replaced in it. -/
theorem WellFormed.matchBindings_self (hs : s.WellFormed) {type : TypeId} (htype : type < s.size)
    (hground : s.IsGround type) : s.matchBindings type type = .ok (some .empty) := by
  have hnone : ∀ leaf ∈ (s.tree type).leaves, s.assigning id leaf = none := fun leaf hleaf => by
    rw [assigning, hground leaf hleaf, if_neg (by simp)]
  have hknown : s.AssignsKnown id (s.tree type) := fun leaf hleaf hparameter => by
    rw [hground leaf hleaf] at hparameter
    cases hparameter
  have htree := (TypeTree.subst_eq_self _ (s.tree type) hnone).symm
  have hvariables : s.variablesIn (s.tree type) = [] := by
    refine List.filterMap_eq_nil_iff.mpr fun leaf hleaf => ?_
    rw [← Option.not_isSome_iff_eq_none, variableName?_isSome, hground leaf hleaf]
    exact Bool.false_ne_true
  rw [hs.matchBindings_of_subst htype htype hknown htree, bindAll_assignedTo, assignedBindings,
    hvariables]
  rfl

/-- A type that is built from a definition is the definition with its parameters replaced. -/
theorem WellFormed.tree_eq_subst_definition (hs : s.WellFormed) {type definition : TypeId}
    {d : Descriptor} {params : List TypeId} (hd : s.get? type = some d)
    (hdefinition : s.definitionOf? type = some definition)
    (ho : s.origin? definition = some (.definition params))
    (hargs : params.map assigned = d.arguments) :
    s.tree type = (s.tree definition).subst (s.assigning assigned) := by
  rw [hs.tree_generic hd hdefinition, tree_definition ho, TypeTree.subst, List.map_map, ← hargs,
    List.map_map]
  congr 1
  refine List.map_congr_left fun param hparam => ?_
  rw [Function.comp_apply, Function.comp_apply, TypeTree.subst, assigning,
    if_pos (hs.isParameter_of_mem ho hparam)]
  rfl

/-- A type that is built from a definition matches it, for it is the definition with the parameters
replaced by the arguments. -/
theorem WellFormed.matchBindings_definition (hs : s.WellFormed) (hregistered : s.Registered)
    {type definition : TypeId} {params args : List TypeId}
    (ho : s.origin? definition = some (.definition params))
    (hbuilt : s.BuiltFrom type definition args) :
    ∃ names : List String, params.map s.variableName? = names.map some ∧ names.Nodup ∧
      names.length = args.length ∧
      s.matchBindings type definition =
        .ok (some ⟨(names.zip args).map fun entry => (entry.1, [entry.2])⟩) := by
  obtain ⟨names, hnames, hnodup⟩ := hregistered.exists_names hs ho
  obtain ⟨d, hd, hdefinition, rfl⟩ := hbuilt
  have hlength := hs.length_arguments hd hdefinition ho
  have hcount : names.length = params.length := by
    rw [← List.length_map (f := some), ← hnames, List.length_map]
  refine ⟨names, hnames, hnodup, hcount.trans hlength.symm, ?_⟩
  let assigned := fun param => (assigned? params d.arguments param).getD param
  have hargs : params.map assigned = d.arguments := hs.map_assigned_parameters ho hlength.symm
  have hleaves := leaves_definition ho
  have hknown : s.AssignsKnown assigned (s.tree definition) := fun leaf hleaf _ => by
    rw [hleaves] at hleaf
    exact hs.arguments_lt hd _ (hargs ▸ List.mem_map_of_mem hleaf)
  have htree := hs.tree_eq_subst_definition hd hdefinition ho hargs
  rw [hs.matchBindings_of_subst (lt_of_get? hd) (lt_of_origin? ho) hknown htree, assignedTo,
    hleaves, assignedTo_parameters hnames hargs]
  -- the names are distinct, so each has an entry of its own
  have hfst : (names.zip d.arguments).map Prod.fst = names :=
    List.map_fst_zip (Nat.le_of_eq (hcount.trans hlength.symm))
  have hentries := Bindings.entries_bindAll_of_nodup (b := .empty) (names.zip d.arguments)
    (by rwa [hfst])
  exact congrArg (fun entries => Except.ok (some (Bindings.mk entries))) hentries

/-! ## Reachable stores -/

/-- Matching recovers what has been put in the places of parameters. -/
structure UndoesSubstitution (s : Store) : Prop where
  /-- A type that comes from a pattern by replacement of its parameters matches the pattern, and
  each name is bound to what its occurrences have been replaced by. -/
  assigned : ∀ {candidate pattern : TypeId} (assigned : TypeId → TypeId), candidate < s.size →
    pattern < s.size → s.AssignsKnown assigned (s.tree pattern) →
    s.tree candidate = (s.tree pattern).subst (s.assigning assigned) →
    s.matchBindings candidate pattern =
      .ok (some (s.assignedBindings assigned (s.tree pattern)))
  /-- A closed type matches itself without bindings. -/
  closed : ∀ {type : TypeId}, type < s.size → s.IsGround type →
    s.matchBindings type type = .ok (some .empty)
  /-- A type that is built from a definition matches the definition, and the parameters, whose names
  are distinct, are bound to the arguments. -/
  definition : ∀ {type definition : TypeId} {params args : List TypeId},
    s.origin? definition = some (.definition params) → s.BuiltFrom type definition args →
    ∃ names : List String, params.map s.variableName? = names.map some ∧ names.Nodup ∧
      names.length = args.length ∧
      s.matchBindings type definition =
        .ok (some ⟨(names.zip args).map fun entry => (entry.1, [entry.2])⟩)

/-- In a reachable store, matching undoes substitution. -/
theorem Reachable.undoesSubstitution (hs : s.Reachable) : s.UndoesSubstitution where
  assigned assigned hcandidate hpattern hknown htree := by
    rw [hs.coherent.wellFormed.matchBindings_of_subst hcandidate hpattern hknown htree,
      bindAll_assignedTo]
  closed := hs.coherent.wellFormed.matchBindings_self
  definition := hs.coherent.wellFormed.matchBindings_definition hs.registered

/-- `Pair<K, V>` comes from the pattern `Pair<X, Y>` by replacement of `X` by `K` and `Y` by `V`,
and `Pair<A, Pair<A, A>>` is built from `Pair<K, V>`. -/
theorem matchBindings_pairs :
    pairs.matchBindings 0 9 = .ok (some ⟨[("X", [1]), ("Y", [2])]⟩) ∧
      pairs.matchBindings 5 0 = .ok (some ⟨[("K", [3]), ("V", [4])]⟩) := by
  have hwf := reachable_pairs.coherent.wellFormed
  have hundoes := reachable_pairs.undoesSubstitution
  have hpair : pairs.origin? 0 = some (.definition [1, 2]) := by decide +kernel
  have hopen : pairs.origin? 9 = some (.instantiation 0 [6, 8] true) := by decide +kernel
  have hbuilt : pairs.origin? 5 = some (.instantiation 0 [3, 4] false) := by decide +kernel
  have hleaf : ∀ type ∈ [1, 2, 6, 8], pairs.tree type = .leaf type := fun type htype =>
    hwf.tree_parameter (by decide +revert +kernel)
  have htree : pairs.tree 9 = .node 0 [.leaf 6, .leaf 8] := by
    rw [hwf.tree_instantiation hopen, List.map_cons, List.map_cons, hleaf 6 (by decide),
      hleaf 8 (by decide)]
    rfl
  constructor
  · let assigned : TypeId → TypeId := fun leaf => if leaf = 6 then 1 else 2
    have hsubst : pairs.tree 0 = (pairs.tree 9).subst (pairs.assigning assigned) := by
      have hX : pairs.assigning assigned 6 = some (.leaf 1) :=
        (if_pos (by decide +kernel)).trans (congrArg some (hleaf 1 (by decide)))
      have hY : pairs.assigning assigned 8 = some (.leaf 2) :=
        (if_pos (by decide +kernel)).trans (congrArg some (hleaf 2 (by decide)))
      simp only [htree, tree_definition hpair, TypeTree.subst, List.map_cons, List.map_nil, hX, hY,
        Option.getD_some]
    rw [hundoes.assigned assigned (by decide +kernel) (by decide +kernel) ?_ hsubst]
    · have hleaves : (pairs.tree 9).leaves = [6, 8] := by simp [htree, TypeTree.leaves]
      rw [assignedBindings, variablesIn, hleaves]
      decide +kernel
    · rw [htree]
      intro leaf _ _
      show (if leaf = 6 then 1 else 2) < pairs.size
      split <;> decide +kernel
  · obtain ⟨names, hnames, -, -, hmatch⟩ :=
      hundoes.definition hpair (builtFrom_iff.mpr (.inr ⟨false, hbuilt⟩))
    have hparameters : [1, 2].map pairs.variableName? = ["K", "V"].map some := by decide +kernel
    rw [hparameters] at hnames
    rw [hmatch, ← List.map_injective_iff.mpr (Option.some_injective _) hnames]
    rfl

end Store

end NominalTypes
