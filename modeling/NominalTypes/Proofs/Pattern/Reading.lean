import NominalTypes.Proofs.Building.Registry
import NominalTypes.Proofs.History.Requests
import NominalTypes.Proofs.Pattern.Renaming

/-!
# Reading a pattern under other names

The variables of a pattern become free parameters, one for each name. If they are renamed in the
text, then other free parameters take their places, and all the rest of the pattern is the same: the
two readings find the same declared types, and apply the same definitions to related arguments. The
stores in which they do so need not be the same. It is enough that both have grown from a common
one and find the same types by name.

- `TypeExpr.atoms`, `TypeExpr.rename`: the parts of an expression without arguments, and their
  replacement.
- `Renaming`: a text with its variables renamed.
- `Store.foreignNames`: the names of the parameters that a pattern contains besides its variables.
- `Store.FindsSame`: a store that has grown and finds the same types by name.
- `Store.Abreast`, `Store.Corresponds`: two such stores, and types of the same structure in them.
- `Store.resolveIn_related`: an expression and its renaming, read side by side.
- `Store.SamePattern`, `Store.Reachable.readPattern_related`: patterns before and after a renaming.
-/

namespace NominalTypes

open Build (Ends CarriesOverUnless carriesOverUnless_pure carriesOverUnless_throw
  carriesOverUnless_of_ends ends_pure ends_get ends_set)

/-! ## Expressions -/

/-- The function renames the given names, and leaves the other ones alone. -/
def renamed (names : List String) (r : String → String) (name : String) : String :=
  if name ∈ names then r name else name

namespace TypeExpr

/-- A part of an expression without arguments. -/
inductive Atom where
  | word (name : String)
  | blanks (name : String) (arity : Nat)
  deriving DecidableEq

mutual

/-- The parts without arguments, from left to right. -/
def atoms : TypeExpr → List Atom
  | .named name [] => [.word name]
  | .named _ (arg :: rest) => arg.atoms ++ atomsAll rest
  | .blanks name arity => [.blanks name arity]
  | .nullable inner => inner.atoms

/-- The same for several expressions. -/
def atomsAll : List TypeExpr → List Atom
  | [] => []
  | arg :: rest => arg.atoms ++ atomsAll rest

end

mutual

/-- The expression with its names without arguments replaced. Only these can be variables. -/
def rename (f : String → String) : TypeExpr → TypeExpr
  | .named name [] => .named (f name) []
  | .named name (arg :: rest) => .named name (arg.rename f :: renameAll f rest)
  | .blanks name arity => .blanks name arity
  | .nullable inner => .nullable (inner.rename f)

/-- The same for several expressions. -/
def renameAll (f : String → String) : List TypeExpr → List TypeExpr
  | [] => []
  | arg :: rest => arg.rename f :: renameAll f rest

end

theorem length_renameAll (f : String → String) (exprs : List TypeExpr) :
    (renameAll f exprs).length = exprs.length := by
  induction exprs with
  | nil => rfl
  | cons expr exprs ih => rw [renameAll, List.length_cons, ih, List.length_cons]

/-- The variables that occur in an expression. -/
def occurring (vars : List String) (expr : TypeExpr) : List String :=
  vars.filter fun name => .word name ∈ expr.atoms

theorem mem_occurring {vars : List String} {expr : TypeExpr} {name : String} :
    name ∈ expr.occurring vars ↔ name ∈ vars ∧ .word name ∈ expr.atoms := by
  rw [occurring, List.mem_filter, decide_eq_true_eq]

end TypeExpr

/-- The second text is the first one with its variables renamed one to one, to names that it does
not contain otherwise. -/
structure Renaming (vars : List String) (r : String → String) (expr : TypeExpr)
    (text text' : String) : Prop where
  before : TypeExpr.parse text = .ok expr
  after : TypeExpr.parse text' = .ok (expr.rename (renamed vars r))
  injective : ∀ name ∈ vars, ∀ other ∈ vars, r name = r other → name = other
  fresh : ∀ name, .word name ∈ expr.atoms → name ∉ vars → name ∉ vars.map r

/-! ## Lookups in scopes -/

section Scope

variable {related : String → TypeId → Prop} {names : List String} {types : List TypeId}
  {name : String}

theorem exists_lookup_zip (h : List.Forall₂ related names types) (hname : name ∈ names) :
    ∃ type, (names.zip types).lookup name = some type := by
  induction h with
  | nil => cases hname
  | @cons other type others types hfirst _ ih =>
    rw [List.zip_cons_cons, List.lookup_cons]
    by_cases heq : name = other
    · exact ⟨type, by rw [beq_iff_eq.mpr heq]⟩
    · rw [beq_false_of_ne heq]
      exact ih (List.mem_of_ne_of_mem heq hname)

theorem related_of_lookup_zip (h : List.Forall₂ related names types) {type : TypeId}
    (hlookup : (names.zip types).lookup name = some type) : related name type := by
  obtain ⟨before, after, heq, -⟩ := List.lookup_eq_some_iff.mp hlookup
  exact List.forall₂_zip h (by rw [heq]; exact List.mem_append_right _ List.mem_cons_self)

theorem lookup_zip_eq_none (hname : name ∉ names) : (names.zip types).lookup name = none := by
  refine List.lookup_eq_none_iff.mpr fun entry hentry => bne_iff_ne.mpr ?_
  rintro rfl
  exact hname (List.of_mem_zip hentry).1

end Scope

namespace Store

variable {b s t u : Store} {vars : List String} {r f : String → String} {scope scope' : Scope}
  {related : TypeId → TypeId → Prop} {named : String → String → Prop} {type : TypeId}

/-! ## Stores that find the same types -/

/-- The names of the parameters of the type that a name and arity denote. -/
def parameterNames (s : Store) (name : String) (arity : Nat) : List String :=
  match s.lookup name arity with
  | .ok type => s.variablesIn (s.tree type)
  | .error _ => []

/-- The names of the parameters that a pattern contains besides its variables: those of the types
that it mentions as they are. -/
def foreignNames (s : Store) (vars : List String) (expr : TypeExpr) : List String :=
  expr.atoms.flatMap fun
    | .word name => if name ∈ vars then [] else s.parameterNames name 0
    | .blanks name arity => s.parameterNames name arity

/-- The store has grown, and the same types are found by name. -/
structure FindsSame (s t : Store) : Prop where
  grows : s.Grows t
  simpleNames : t.simpleNames = s.simpleNames
  qualifiedNames : t.qualifiedNames = s.qualifiedNames
  aliases : t.aliases = s.aliases

namespace FindsSame

theorem refl (hs : s.Closed) : s.FindsSame s := ⟨hs.grows_refl, rfl, rfl, rfl⟩

theorem trans (h : s.FindsSame t) (h' : t.FindsSame u) : s.FindsSame u :=
  ⟨h.grows.trans h'.grows, h'.simpleNames.trans h.simpleNames,
    h'.qualifiedNames.trans h.qualifiedNames, h'.aliases.trans h.aliases⟩

theorem of_sameTables (hgrows : s.Grows t) (h : s.SameTables t ∧ t.aliases = s.aliases) :
    s.FindsSame t := ⟨hgrows, h.1.simpleNames, h.1.qualifiedNames, h.2⟩

theorem lookup_eq_ok_iff (h : s.FindsSame t) {name : String} {arity : Nat} :
    t.lookup name arity = .ok type ↔ s.lookup name arity = .ok type := by
  refine Store.lookup_eq_ok_iff ?_ (by rw [h.qualifiedNames]) (by rw [h.simpleNames])
  unfold aliased?
  rw [h.aliases]

end FindsSame

/-- Reading a pattern, whether it succeeds or fails, leaves a store that finds the same types. -/
theorem Reachable.findsSame_readPattern (hs : s.Reachable) (text : String) (vars : List String) :
    s.FindsSame ((readPattern text vars).after s) :=
  ((readPattern_ends hs.coherent text vars).and
    (readPattern_sameTables hs.coherent text vars)).store
    (fun _ _ ht => .of_sameTables ht.1.2.1 ht.2) fun _ ht => .of_sameTables ht.1.2 ht.2

/-! ## Side by side -/

/-- Two stores have grown from the store `b` and find the same types as it does. A scope belongs to
each of them. -/
structure Abreast (b : Store) (scope scope' : Scope) (s t : Store) : Prop where
  origin : b.WellFormed
  left : s.Coherent
  right : t.Coherent
  fromLeft : b.FindsSame s
  fromRight : b.FindsSame t
  scopeLeft : ∀ name param, scope.lookup name = some param → s.isParameter param = true
  scopeRight : ∀ name param, scope'.lookup name = some param → t.isParameter param = true

/-- A type of one store and a type of another one have the same structure, with related leaves. -/
structure Corresponds (related : TypeId → TypeId → Prop) (x : TypeId) (s : Store) (y : TypeId)
    (t : Store) : Prop where
  left_lt : x < s.size
  right_lt : y < t.size
  trees : (s.tree x).Related related (t.tree y)

theorem Corresponds.later {x y : TypeId} {v : Store} (h : Corresponds related x s y t)
    (hs : s.WellFormed) (ht : t.WellFormed) (hsu : s.Grows u) (htv : t.Grows v) :
    Corresponds related x u y v where
  left_lt := Nat.lt_of_lt_of_le h.left_lt hsu.size_le
  right_lt := Nat.lt_of_lt_of_le h.right_lt htv.size_le
  trees := by
    rw [hsu.keepsOutlines.tree_eq hs h.left_lt, htv.keepsOutlines.tree_eq ht h.right_lt]
    exact h.trees

theorem OnlyBuilds.findsSame {α : Type} {operation : Build α} {pending : TypeId → Prop}
    (h : OnlyBuilds pending operation) (hs : s.Consistent pending) :
    operation.Ends s (fun _ t => t.Consistent pending ∧ s.FindsSame t) fun _ => True :=
  (h s hs).mono (fun _ _ ht => ⟨ht.1.consistent, ht.1.builds.grows, ht.2.simpleNames,
    ht.2.qualifiedNames, ht.2.aliases⟩) fun _ _ => trivial

section Instantiate

variable {definition : TypeId} {args : List TypeId}

/-- If a definition could be applied, then it fits its arguments. -/
theorem misfit?_of_instantiate (hrun : instantiate definition args s = (.ok type, t)) :
    s.misfit? definition args = none := by
  cases hmisfit : s.misfit? definition args with
  | none => rfl
  | some error =>
    have hrefused := Build.atomic_eq_ok.mp hrun
    rw [instantiateWithin_of_misfit hmisfit] at hrefused
    cases hrefused

/-- If a definition fits its arguments, then nothing but the limit keeps it from being applied. -/
theorem isLimit_of_instantiate (hs : s.Coherent) (hargs : ∀ arg ∈ args, arg < s.size)
    (hfits : s.misfit? definition args = none) {error : StoreError}
    (hrun : instantiate definition args s = (.error error, t)) : error.IsLimit := by
  have hwithin : (instantiateWithin (maxInstantiationDepth + 1) definition args s).1 =
      .error error := by
    rw [← Build.fst_atomic]
    exact congrArg Prod.fst hrun
  exact instantiateWithin_failsOnly _ _ s definition args hs hargs hfits error _
    (Prod.ext hwithin rfl)

end Instantiate

namespace Abreast

/-- Operations that only build instantiations keep stores abreast. -/
theorem goesOn {α β : Type} {first : Build α} {second : Build β} {reason : StoreError → Prop}
    {done : α → Store → β → Store → Prop} (h : b.Abreast scope scope' s t)
    (hrun : first.CarriesOverUnless reason s second t done)
    (hfirst : OnlyBuilds (fun _ => False) first) (hsecond : OnlyBuilds (fun _ => False) second) :
    first.CarriesOverUnless reason s second t fun x u y v =>
      done x u y v ∧ b.Abreast scope scope' u v ∧ s.Grows u ∧ t.Grows v := by
  refine (hrun.and (hfirst.findsSame h.left) (hsecond.findsSame h.right)).mono ?_
  rintro x u y v ⟨hdone, ⟨hu, hsu⟩, hv, htv⟩
  have hleft := hsu.grows.keepsOutlines
  have hright := htv.grows.keepsOutlines
  exact ⟨hdone, ⟨h.origin, hu, hv, h.fromLeft.trans hsu, h.fromRight.trans htv,
    fun name param hparam => hleft.isParameter (h.scopeLeft name param hparam),
    fun name param hparam => hright.isParameter (h.scopeRight name param hparam)⟩,
    hsu.grows, htv.grows⟩

/-- A type of the common store is like itself, if its leaves are related to themselves. -/
theorem corresponds_known (h : b.Abreast scope scope' s t) (htype : type < b.size)
    (hleaves : ∀ leaf ∈ (b.tree type).leaves, related leaf leaf) :
    Corresponds related type s type t where
  left_lt := Nat.lt_of_lt_of_le htype h.fromLeft.grows.size_le
  right_lt := Nat.lt_of_lt_of_le htype h.fromRight.grows.size_le
  trees := by
    rw [h.fromLeft.grows.keepsOutlines.tree_eq h.origin htype,
      h.fromRight.grows.keepsOutlines.tree_eq h.origin htype]
    exact TypeTree.related_self _ hleaves

/-- A name that denotes a type in the first store denotes it in the second one. -/
theorem find_related (h : b.Abreast scope scope' s t) (name : String) (arity : Nat)
    (reason : StoreError → Prop) :
    (find name arity).CarriesOverUnless reason s (find name arity) t fun x u y v =>
      x = y ∧ u = s ∧ v = t ∧ b.lookup name arity = .ok x := by
  have hrun : ∀ u : Store, find name arity u =
      match u.lookup name arity with
      | .ok type => (.ok type, u)
      | .error error => (.error error, u) := fun u => by
    rw [find, Build.get_bind]
    cases u.lookup name arity <;> rfl
  intro x u hfirst
  rw [hrun] at hfirst
  split at hfirst
  swap
  · cases hfirst
  next htype =>
  cases hfirst
  have hlookup := h.fromLeft.lookup_eq_ok_iff.mp htype
  refine .inl ⟨x, t, ?_, rfl, rfl, rfl, hlookup⟩
  rw [hrun, h.fromRight.lookup_eq_ok_iff.mpr hlookup]

/-- A definition that can be applied to arguments in the first store can be applied to related ones
in the second store, unless this fails at the limit. -/
theorem instantiate_related (h : b.Abreast scope scope' s t) {definition : TypeId}
    (hdefinition : definition < b.size) {args args' : List TypeId}
    (hargs : List.Forall₂ (fun x y => Corresponds related x s y t) args args') :
    (instantiate definition args).CarriesOverUnless StoreError.IsLimit s
      (instantiate definition args') t (Corresponds related) := by
  have hknown : ∀ arg ∈ args', arg < t.size :=
    ((List.forall₂_and_left args' args).mp
      (hargs.flip.imp fun _ _ hmatches => ⟨hmatches.right_lt, trivial⟩)).1
  intro x u hfirst
  have hx := (instantiate_ends h.left).of_ok hfirst
  -- the number of parameters was settled in the common store
  have hfits : t.misfit? definition args' = none := by
    obtain ⟨params, ho, hlength⟩ := misfit?_eq_none_iff.mp (misfit?_of_instantiate hfirst)
    rw [h.fromLeft.grows.keepsOutlines.origin?_eq hdefinition] at ho
    exact misfit?_eq_none_iff.mpr ⟨params, h.fromRight.grows.keepsOutlines.origin?_some ho,
      hlength.trans hargs.length_eq⟩
  rcases hsecond : instantiate definition args' t with ⟨error | y, v⟩
  · exact .inr ⟨error, v, rfl, isLimit_of_instantiate h.right hknown hfits hsecond⟩
  · have hy := (instantiate_ends h.right).of_ok hsecond
    refine .inl ⟨y, v, rfl, hx.known, hy.known, ?_⟩
    rw [hx.tree_eq, hy.tree_eq]
    refine .node (List.forall₂_map_left_iff.mpr (List.forall₂_map_right_iff.mpr ?_))
    exact hargs.imp fun x y hmatches => (hmatches.later h.left.wellFormed h.right.wellFormed
      hx.builds.grows hy.builds.grows).trees

/-- So can the nullable wrapper. -/
theorem nullableForm_related (h : b.Abreast scope scope' s t) {x y : TypeId}
    (hxy : Corresponds related x s y t) :
    (nullableForm x).CarriesOverUnless StoreError.IsLimit s (nullableForm y) t
      (Corresponds related) := by
  have hleft : s.roles.nullable = b.roles.nullable := by rw [h.fromLeft.grows.roles_eq]
  have hright : t.roles.nullable = b.roles.nullable := by rw [h.fromRight.grows.roles_eq]
  refine CarriesOverUnless.congr ?_ (Build.get_bind _ s) (Build.get_bind _ t)
  rw [hleft, hright]
  cases hrole : b.roles.nullable with
  | none => exact carriesOverUnless_throw _ _
  | some definition =>
    obtain ⟨-, param, ho⟩ := h.origin.roles.nullable definition hrole
    exact h.instantiate_related (lt_of_origin? ho) (.cons hxy .nil)

end Abreast

/-! ## Expressions side by side -/

/-- The types that a part of an expression denotes before and after the renaming have related
leaves: both are parameters in scope, or both are the same type of the store `b`. -/
inductive AtomRelated (b : Store) (related : TypeId → TypeId → Prop) (scope scope' : Scope)
    (f : String → String) : TypeExpr.Atom → Prop
  | bound {name : String} {x y : TypeId} (left : scope.lookup name = some x)
      (right : scope'.lookup (f name) = some y) (h : related x y) :
      AtomRelated b related scope scope' f (.word name)
  | unbound {name : String} (same : f name = name) (left : scope.lookup name = none)
      (right : scope'.lookup name = none) (h : ∀ type, b.lookup name 0 = .ok type →
        ∀ leaf ∈ (b.tree type).leaves, related leaf leaf) :
      AtomRelated b related scope scope' f (.word name)
  | blanks {name : String} {arity : Nat} (h : ∀ type, b.lookup name arity = .ok type →
        ∀ leaf ∈ (b.tree type).leaves, related leaf leaf) :
      AtomRelated b related scope scope' f (.blanks name arity)

namespace Abreast

/-- A name without arguments is looked up in scope, and then in the store. -/
theorem word_related (h : b.Abreast scope scope' s t) {name : String}
    (hatom : b.AtomRelated related scope scope' f (.word name)) :
    (resolveIn scope (.named name [])).CarriesOverUnless StoreError.IsLimit s
      (resolveIn scope' (.named (f name) [])) t (Corresponds related) := by
  rw [resolveIn, resolveIn]
  cases hatom with
  | @bound _ x y left right hxy =>
    rw [left, right]
    have hx := h.scopeLeft name x left
    have hy := h.scopeRight _ y right
    refine carriesOverUnless_pure ⟨lt_of_kind? (isParameter_iff.mp hx),
      lt_of_kind? (isParameter_iff.mp hy), ?_⟩
    rw [h.left.wellFormed.tree_parameter hx, h.right.wellFormed.tree_parameter hy]
    exact .leaf hxy
  | unbound same left right hleaves =>
    rw [same, left, right]
    refine (h.find_related name 0 _).mono ?_
    rintro x u _ v ⟨rfl, rfl, rfl, hlookup⟩
    exact h.corresponds_known (lookup_lt h.origin.closed hlookup) (hleaves x hlookup)

/-- Blanks stand for a definition of the common store, if it is one. -/
theorem blanks_related (h : b.Abreast scope scope' s t) {name : String} {arity : Nat}
    (hatom : b.AtomRelated related scope scope' f (.blanks name arity)) :
    (resolveIn scope (.blanks name arity)).CarriesOverUnless StoreError.IsLimit s
      (resolveIn scope' (.blanks name arity)) t (Corresponds related) := by
  cases hatom with
  | blanks hleaves =>
  rw [resolveIn, resolveIn]
  refine CarriesOverUnless.bind ((h.find_related name arity _).mono ?_)
  rintro definition u _ v ⟨rfl, rfl, rfl, hlookup⟩
  have hlt := lookup_lt h.origin.closed hlookup
  obtain ⟨d, hd⟩ := exists_get? hlt
  refine CarriesOverUnless.congr ?_
    (ask_bind_of_get? ((h.fromLeft.grows.get?_eq hlt).trans hd) _)
    (ask_bind_of_get? ((h.fromRight.grows.get?_eq hlt).trans hd) _)
  split
  · exact carriesOverUnless_pure (h.corresponds_known hlt (hleaves definition hlookup))
  · exact carriesOverUnless_throw _ _

end Abreast

mutual

/-- An expression that denotes a type in the first store denotes one with related leaves in the
second store after the renaming, unless an instantiation fails at the limit. -/
theorem resolveIn_related : ∀ (expr : TypeExpr) {s t : Store}, b.Abreast scope scope' s t →
    (∀ atom ∈ expr.atoms, b.AtomRelated related scope scope' f atom) →
    (resolveIn scope expr).CarriesOverUnless StoreError.IsLimit s
      (resolveIn scope' (expr.rename f)) t (Corresponds related)
  | .named name [], s, t, h, hatoms => by
    rw [TypeExpr.rename]
    exact h.word_related (hatoms (.word name) (List.mem_singleton_self _))
  | .named name (arg :: rest), s, t, h, hatoms => by
    rw [TypeExpr.atoms, List.forall_mem_append] at hatoms
    rw [TypeExpr.rename, resolveIn, resolveIn, TypeExpr.length_renameAll]
    refine CarriesOverUnless.bind ((h.find_related name _ _).mono ?_)
    rintro definition u _ v ⟨rfl, rfl, rfl, hlookup⟩
    refine CarriesOverUnless.bind ((h.goesOn (resolveIn_related arg h hatoms.1) (.resolveIn _)
      (.resolveIn _)).mono ?_)
    rintro x u y v ⟨hxy, huv, -, -⟩
    refine CarriesOverUnless.bind ((huv.goesOn (resolveAllIn_related rest huv hatoms.2)
      (.resolveAllIn _) (.resolveAllIn _)).mono ?_)
    -- the first argument has been read before the other ones
    rintro others w others' z ⟨hothers, hwz, huw, hvz⟩
    have hfirst := hxy.later huv.left.wellFormed huv.right.wellFormed huw hvz
    exact hwz.instantiate_related (lookup_lt h.origin.closed hlookup) (.cons hfirst hothers)
  | .blanks name arity, s, t, h, hatoms => by
    rw [TypeExpr.rename]
    exact h.blanks_related (hatoms (.blanks name arity) (List.mem_singleton_self _))
  | .nullable inner, s, t, h, hatoms => by
    rw [TypeExpr.rename, resolveIn, resolveIn]
    refine CarriesOverUnless.bind ((h.goesOn (resolveIn_related inner h hatoms) (.resolveIn _)
      (.resolveIn _)).mono ?_)
    rintro x u y v ⟨hxy, huv, -, -⟩
    exact huv.nullableForm_related hxy

theorem resolveAllIn_related : ∀ (exprs : List TypeExpr) {s t : Store},
    b.Abreast scope scope' s t →
    (∀ atom ∈ TypeExpr.atomsAll exprs, b.AtomRelated related scope scope' f atom) →
    (resolveAllIn scope exprs).CarriesOverUnless StoreError.IsLimit s
      (resolveAllIn scope' (TypeExpr.renameAll f exprs)) t fun xs u ys v =>
        List.Forall₂ (fun x y => Corresponds related x u y v) xs ys
  | [], s, t, _, _ => by
    rw [TypeExpr.renameAll, resolveAllIn, resolveAllIn]
    exact carriesOverUnless_pure .nil
  | arg :: rest, s, t, h, hatoms => by
    rw [TypeExpr.atomsAll, List.forall_mem_append] at hatoms
    rw [TypeExpr.renameAll, resolveAllIn, resolveAllIn]
    refine CarriesOverUnless.bind ((h.goesOn (resolveIn_related arg h hatoms.1) (.resolveIn _)
      (.resolveIn _)).mono ?_)
    rintro x u y v ⟨hxy, huv, -, -⟩
    refine CarriesOverUnless.bind ((huv.goesOn (resolveAllIn_related rest huv hatoms.2)
      (.resolveAllIn _) (.resolveAllIn _)).mono ?_)
    rintro others w others' z ⟨hothers, hwz, huw, hvz⟩
    exact carriesOverUnless_pure
      (.cons (hxy.later huv.left.wellFormed huv.right.wellFormed huw hvz) hothers)

end

/-! ## Patterns side by side -/

/-- A free parameter is entered under the name that was asked for, or has been before. -/
theorem freeParameter_entered (s : Store) (name : String) :
    (freeParameter name).Ends s (fun param t => t.freeParameters[name]? = some param)
      fun _ => True := by
  refine Ends.bind (meet_ends s [name] fun t _ => Ends.bind (ends_get ?_))
  split
  · next existing hexisting => exact ends_pure hexisting
  · refine Ends.bind (ends_set (ends_pure ?_))
    exact (freeParameters_addFree name).trans (if_pos rfl)

theorem Reachable.after_freeParameter (hs : s.Reachable) (name : String) :
    ((freeParameter name).after s).Reachable := by
  have hstep := Reachable.step (.freeParameter name) hs
  rwa [Operation.perform, Build.after_dropped] at hstep

/-- A free parameter has the name that was asked for. -/
theorem freeParameter_named (hs : s.Reachable) (name : String) :
    (freeParameter name).Ends s
      (fun param t => t.Reachable ∧ s.FindsSame t ∧ t.variableName? param = some name)
      fun _ => False := by
  obtain ⟨param, t, hrun, ⟨-, hgrows, horigin⟩, htables⟩ :=
    ((freeParameter_ends hs.coherent name).and (freeParameter_sameTables s name)).mono
      (fun _ _ => id) (fun _ h => h.1) |>.exists_ok
  have ht : t.Reachable := by
    have hafter : (freeParameter name).after s = t := congrArg Prod.snd hrun
    exact hafter ▸ hs.after_freeParameter name
  have hname := ht.registered.freeParameters name param ((freeParameter_entered s name).of_ok hrun)
  obtain ⟨d, hd, rfl⟩ := Option.map_eq_some_iff.mp hname
  have hkind : d.kind = .parameter := by
    rw [origin?_of_get? hd] at horigin
    exact (ht.coherent.wellFormed.kind_parameter_iff hd).mpr (.inr (Option.some.inj horigin))
  unfold Ends
  rw [hrun]
  refine ⟨ht, .of_sameTables hgrows htables, ?_⟩
  rw [variableName?_of_get? hd, if_pos]
  exact beq_iff_eq.mpr hkind

/-- So do several ones, each name having its own. -/
theorem freeParameters_named (hs : s.Reachable) (names : List String) :
    (names.mapM freeParameter).Ends s
      (fun params t => t.Reachable ∧ s.FindsSame t ∧
        List.Forall₂ (fun name param => t.variableName? param = some name) names params)
      fun _ => False := by
  refine Build.ends_mapM FindsSame (fun t ht => .refl ht.coherent.wellFormed.closed)
    (fun h h' => h.trans h') ?_ hs fun name _ t ht _ => freeParameter_named ht name
  exact fun t u name param _ htu hname => htu.grows.keepsTypes.variableName?_some hname

theorem readPattern_eq {text : String} {expr : TypeExpr} (h : TypeExpr.parse text = .ok expr)
    (vars : List String) : readPattern text vars = (do
      let params ← vars.mapM freeParameter
      resolveIn (vars.zip params) expr : Build TypeId) := by
  rw [readPattern, readExpr, h]
  rfl

/-- The leaves of a known type are known. -/
theorem WellFormed.leaves_lt (hs : s.WellFormed) (htype : type < s.size) :
    ∀ leaf ∈ (s.tree type).leaves, leaf < s.size := by
  induction type using Nat.strongRecOn with
  | ind type ih =>
    obtain ⟨d, hd⟩ := exists_get? htype
    intro leaf hleaf
    cases hdefinition : s.definitionOf? type with
    | none =>
      rw [tree_leaf hdefinition, TypeTree.leaves, List.mem_singleton] at hleaf
      exact hleaf ▸ htype
    | some definition =>
      rw [hs.tree_generic hd hdefinition, TypeTree.leaves, List.flatMap_map] at hleaf
      obtain ⟨arg, harg, hleaf⟩ := List.mem_flatMap.mp hleaf
      have hlt := hs.arguments_lt hd arg harg
      by_cases holder : arg < type
      · exact ih arg holder hlt leaf hleaf
      · rw [hs.tree_parameter (hs.isParameter_of_not_lt hd harg holder), TypeTree.leaves,
          List.mem_singleton] at hleaf
        exact hleaf ▸ hlt

/-- A type of the common store takes its own place. -/
theorem WellFormed.replaces_self (hb : b.WellFormed) {name : String} {arity : Nat}
    (h : ∀ other ∈ b.parameterNames name arity, named other other)
    (htype : b.lookup name arity = .ok type) :
    ∀ leaf ∈ (b.tree type).leaves, Replaces b s t named leaf leaf := by
  intro leaf hleaf
  refine .known (hb.leaves_lt (lookup_lt hb.closed htype) leaf hleaf) fun other hother => h other ?_
  rw [parameterNames, htype]
  exact List.mem_filterMap.mpr ⟨leaf, hleaf, hother⟩

/-- A name takes the place of another one: variables are renamed, and foreign names stay. -/
def Named (own foreign : List String) (r : String → String) (name name' : String) : Prop :=
  (name ∈ own ∧ name' = r name) ∨ (name ∈ foreign ∧ name' = name)

/-- Two patterns, in stores that know the types of the store `b`, have the same structure. Their
parameters have related names. -/
structure SamePattern (b : Store) (named : String → String → Prop) (pattern : TypeId) (s : Store)
    (pattern' : TypeId) (t : Store) : Prop where
  left : s.WellFormed
  right : t.WellFormed
  fromLeft : b.KeepsTypes s
  fromRight : b.KeepsTypes t
  alike : Corresponds (Replaces b s t named) pattern s pattern' t

section Parameters

variable {params params' : List TypeId}

/-- Free parameters that have the names of the variables may be looked up side by side. -/
theorem abreast_of_parameters (hb : b.WellFormed) (hs : s.Coherent) (ht : t.Coherent)
    (hbs : b.FindsSame s) (hbt : b.FindsSame t)
    (hparams : List.Forall₂ (fun name param => s.variableName? param = some name) vars params)
    (hparams' : List.Forall₂ (fun name param => t.variableName? param = some name) (vars.map r)
      params') : b.Abreast (vars.zip params) ((vars.map r).zip params') s t where
  origin := hb
  left := hs
  right := ht
  fromLeft := hbs
  fromRight := hbt
  scopeLeft name param h := by
    rw [← variableName?_isSome, related_of_lookup_zip hparams h]
    rfl
  scopeRight name param h := by
    rw [← variableName?_isSome, related_of_lookup_zip hparams' h]
    rfl

/-- Each part of the text without arguments is one of its variables or means what it has meant in the
common store, where the names of its parameters are foreign ones. -/
theorem atomRelated_of_renaming (hb : b.WellFormed) {text text' : String} {expr : TypeExpr}
    (hrenaming : Renaming vars r expr text text')
    (hparams : List.Forall₂ (fun name param => s.variableName? param = some name) vars params)
    (hparams' : List.Forall₂ (fun name param => t.variableName? param = some name) (vars.map r)
      params') : ∀ atom ∈ expr.atoms, b.AtomRelated
    (Replaces b s t (Named (expr.occurring vars) (b.foreignNames vars expr) r))
    (vars.zip params) ((vars.map r).zip params') (renamed vars r) atom := by
  rintro (name | ⟨name, arity⟩) hatom
  · by_cases hname : name ∈ vars
    · obtain ⟨param, hparam⟩ := exists_lookup_zip hparams hname
      obtain ⟨param', hparam'⟩ := exists_lookup_zip hparams' (List.mem_map_of_mem hname)
      refine .bound hparam (by rw [renamed, if_pos hname]; exact hparam') ?_
      exact .parameter (related_of_lookup_zip hparams hparam)
        (related_of_lookup_zip hparams' hparam')
        (.inl ⟨TypeExpr.mem_occurring.mpr ⟨hname, hatom⟩, rfl⟩)
    -- no variable has got this name, so it is looked up in the store on both sides
    · refine .unbound (if_neg hname) (lookup_zip_eq_none hname)
        (lookup_zip_eq_none (hrenaming.fresh name hatom hname)) fun type => hb.replaces_self ?_
      refine fun other hother => .inr ⟨List.mem_flatMap.mpr ⟨_, hatom, ?_⟩, rfl⟩
      dsimp only
      rwa [if_neg hname]
  · exact .blanks fun type => hb.replaces_self fun other hother =>
      .inr ⟨List.mem_flatMap.mpr ⟨_, hatom, hother⟩, rfl⟩

end Parameters

/-- If a pattern can be read, then it can be read after its variables have been renamed, unless an
instantiation fails at the limit; and the two patterns have the same structure. -/
theorem Reachable.readPattern_related (hb : b.Reachable) (hu : u.Reachable) (hbu : b.FindsSame u)
    {text text' : String} {expr : TypeExpr} (hrenaming : Renaming vars r expr text text') :
    (readPattern text vars).CarriesOverUnless StoreError.IsLimit b
      (readPattern text' (vars.map r)) u
      (b.SamePattern (Named (expr.occurring vars) (b.foreignNames vars expr) r)) := by
  have hwf := hb.coherent.wellFormed
  rw [readPattern_eq hrenaming.before, readPattern_eq hrenaming.after]
  refine CarriesOverUnless.bind ((carriesOverUnless_of_ends (freeParameters_named hb vars)
    (freeParameters_named hu (vars.map r))).mono ?_)
  rintro params s params' t ⟨⟨hs, hbs, hparams⟩, ht, hut, hparams'⟩
  have habreast := abreast_of_parameters hwf hs.coherent ht.coherent hbs (hbu.trans hut) hparams
    hparams'
  have hatoms := atomRelated_of_renaming hwf hrenaming hparams hparams'
  refine (habreast.goesOn (resolveIn_related expr habreast hatoms) (.resolveIn _)
    (.resolveIn _)).mono ?_
  rintro pattern v pattern' w ⟨hmatches, hvw, hsv, htw⟩
  exact ⟨hvw.left.wellFormed, hvw.right.wellFormed, hvw.fromLeft.grows.keepsTypes,
    hvw.fromRight.grows.keepsTypes, hmatches.left_lt, hmatches.right_lt,
    hmatches.trees.mono fun x y hxy => hxy.later hsv.keepsTypes htw.keepsTypes⟩

end Store

end NominalTypes
