import NominalTypes.Proofs.Building.Declaration
import NominalTypes.Proofs.Termination.Instantiation

/-!
# Declaring comes to an end

A declaration enters its type and the parameters one by one, and the type has no arguments before
they are all there. Then it reads its supertypes, which may instantiate the type itself, and fills
in those of the instantiations that have come up. All requests that it makes itself are first ones.

- `Store.instantiateTraced`, `Store.readTypeInTraced`: instantiating and reading as runs.
- `Store.begin`, `Store.enterTraced`: how a type is entered.
- `Store.declareTraced`: declaring as a run.
- `Store.follows_instantiateTraced`, `Store.follows_declareTraced`: the runs follow the operations.
-/

namespace NominalTypes.Store

open Build (Ends ends_pure ends_throw ends_get ends_set ends_modify)
open Traced (step Follows follows_pure follows_step follows_set_bind follows_modify_bind
  follows_mapM follows_forM)

variable {pending : TypeId → Prop} {s t u : Store} {type definition : TypeId} {args : List TypeId}
  {order : ScanOrder}
  {scope : Scope} {d : Declaration}

/-! ## Instantiating -/

/-- The type of a definition and arguments. -/
def instantiateTraced (calls : Nat) (definition : TypeId) (args : List TypeId) : Traced TypeId :=
  Traced.atomic (instantiateAt calls 0 definition args)

/-- What is done as a whole goes back to a store that is unchanged, if nothing but growth is left by
a failure. -/
theorem follows_atomic {α : Type} {run : Nat → Traced α} {operation : Build α}
    {ok : α → Store → Prop} (hs : s.WellFormed) (hends : operation.Ends s ok fun t => s.Grows t)
    (h : Follows run operation s) :
    Follows (fun calls => (run calls).atomic) (Build.atomic operation) s :=
  h.atomic fun _ _ hrun =>
    have hgrows := hends.of_error hrun
    (hs.unchangedButNames ⟨hgrows.rollback, hgrows.names⟩).wellFounded_isArgument

theorem follows_instantiateTraced (hs : s.Consistent pending) (definition : TypeId)
    (args : List TypeId) :
    Follows (instantiateTraced · definition args) (instantiate definition args) s := by
  have hends := instantiateWithin_applies (maxInstantiationDepth + 1) pending s definition args hs
  exact follows_atomic hs.wellFormed (hends.mono (fun _ _ => id) fun _ ht => ht.grows)
    (follows_instantiateAt _ (Nat.zero_add _) hs definition args)

/-- The nullable form of a type. -/
def nullableFormTraced (calls : Nat) (type : TypeId) : Traced TypeId := do
  let s ← step 0 get
  match s.roles.nullable with
  | some definition => instantiateTraced calls definition [type]
  | none => step 0 (throw .missingNullableDefinition)

theorem follows_nullableFormTraced (hs : s.Consistent pending) (type : TypeId) :
    Follows (nullableFormTraced · type) (nullableForm type) s := by
  refine follows_get_bind hs.wellFormed (Nat.zero_le _) ?_
  cases s.roles.nullable with
  | some definition => exact follows_instantiateTraced hs definition [type]
  | none => exact follows_look hs.wellFormed (Nat.zero_le _) (ends_throw rfl)

/-! ## Reading -/

mutual

/-- The type that an expression denotes. -/
def resolveInTraced (calls : Nat) (scope : Scope) : TypeExpr → Traced TypeId
  | .named name [] =>
    match scope.lookup name with
    | some param => pure param
    | none => step 0 (find name 0)
  | .named name (arg :: rest) => do
    let definition ← step 0 (find name (rest.length + 1))
    let first ← resolveInTraced calls scope arg
    let others ← resolveAllInTraced calls scope rest
    instantiateTraced calls definition (first :: others)
  | .blanks name arity => do
    let definition ← step 0 (find name arity)
    let d ← step 0 (Build.ask (·.descriptor definition))
    if d.isDefinition then pure definition else step 0 (throw (.notGenericDefinition name))
  | .nullable inner => do
    let type ← resolveInTraced calls scope inner
    nullableFormTraced calls type

/-- The types that the arguments after the first denote. -/
def resolveAllInTraced (calls : Nat) (scope : Scope) : List TypeExpr → Traced (List TypeId)
  | [] => pure []
  | arg :: rest => do
    let first ← resolveInTraced calls scope arg
    let others ← resolveAllInTraced calls scope rest
    pure (first :: others)

end

/-- The type that a text denotes where some names are parameters. -/
def readTypeInTraced (calls : Nat) (scope : Scope) (text : String) : Traced TypeId := do
  let expr ← step 0 (readExpr text)
  resolveInTraced calls scope expr

theorem follows_find (hs : s.WellFormed) (name : String) (arity : Nat) :
    Follows (fun _ => step 0 (find name arity)) (find name arity) s :=
  follows_look hs (Nat.zero_le _) ((find_ends hs.closed name arity).mono (fun _ _ ht => ht.1)
    fun _ => id)

theorem lt_size_of_advances (h : s.Advances pending t)
    (hscope : ∀ entry ∈ scope, entry.2 < s.size) : ∀ entry ∈ scope, entry.2 < t.size :=
  fun entry hentry => Nat.lt_of_lt_of_le (hscope entry hentry) h.builds.size_le

mutual

theorem follows_resolveInTraced :
    ∀ (expr : TypeExpr) {s : Store}, s.Consistent pending → (∀ entry ∈ scope, entry.2 < s.size) →
      Follows (resolveInTraced · scope expr) (resolveIn scope expr) s
  | .named name [], s, hs, _ => by
    simp only [resolveInTraced]
    rw [resolveIn]
    cases scope.lookup name with
    | some param => exact follows_pure param
    | none => exact follows_find hs.wellFormed name 0
  | .named name (arg :: rest), s, hs, hscope => by
    simp only [resolveInTraced]
    rw [resolveIn]
    refine (follows_find hs.wellFormed name _).bind (find_ends hs.wellFormed.closed name _) ?_
    rintro definition t ⟨rfl, -⟩
    refine (follows_resolveInTraced arg hs hscope).bind (resolveIn_ends arg hs hscope) ?_
    rintro first u ⟨hu, -⟩
    have hscope' := lt_size_of_advances hu hscope
    refine (follows_resolveAllInTraced rest hu.consistent hscope').bind
      (resolveAllIn_ends rest hu.consistent hscope') fun others v hv => ?_
    exact follows_instantiateTraced hv.consistent definition (first :: others)
  | .blanks name arity, s, hs, _ => by
    simp only [resolveInTraced]
    rw [resolveIn]
    refine (follows_find hs.wellFormed name arity).bind
      (find_ends hs.wellFormed.closed name arity) ?_
    rintro definition t ⟨rfl, -⟩
    refine follows_descriptor_bind hs.wellFormed (Nat.zero_le _) fun d _ => ?_
    exact Follows.ite (fun _ => follows_pure definition)
      fun _ => follows_look hs.wellFormed (Nat.zero_le _) (ends_throw rfl)
  | .nullable inner, s, hs, hscope => by
    simp only [resolveInTraced]
    rw [resolveIn]
    refine (follows_resolveInTraced inner hs hscope).bind (resolveIn_ends inner hs hscope) ?_
    exact fun type t ht => follows_nullableFormTraced ht.1.consistent type

theorem follows_resolveAllInTraced :
    ∀ (exprs : List TypeExpr) {s : Store}, s.Consistent pending →
      (∀ entry ∈ scope, entry.2 < s.size) →
      Follows (resolveAllInTraced · scope exprs) (resolveAllIn scope exprs) s
  | [], s, _, _ => by
    simp only [resolveAllInTraced]
    rw [resolveAllIn]
    exact follows_pure []
  | arg :: rest, s, hs, hscope => by
    simp only [resolveAllInTraced]
    rw [resolveAllIn]
    refine (follows_resolveInTraced arg hs hscope).bind (resolveIn_ends arg hs hscope) ?_
    rintro first t ⟨ht, -⟩
    exact (follows_resolveAllInTraced rest ht.consistent (lt_size_of_advances ht hscope)).bind
      (Build.ends_true _ _) fun others u _ => follows_pure (first :: others)

end

theorem follows_readTypeInTraced (hs : s.Consistent pending)
    (hscope : ∀ entry ∈ scope, entry.2 < s.size) (text : String) :
    Follows (readTypeInTraced · scope text) (readTypeIn scope text) s := by
  have hends : (readExpr text).Ends s (fun _ t => t = s) fun t => t = s :=
    readExpr_ends (fun _ => rfl) rfl
  refine (follows_look hs.wellFormed (Nat.zero_le _) hends).bind hends ?_
  rintro expr t rfl
  exact follows_resolveInTraced expr hs hscope

/-! ## Entering a type -/

/-- The store with the names of a declaration and its type, which has no arguments yet. -/
def begin (s : Store) (d : Declaration) : Store :=
  let origin := if d.parameters.length = 0 then .declared else .definition []
  { s.push (.bare d.name d.effectiveQualifier d.kind d.modifiers origin) with
    simpleNames := (s.enter d).simpleNames
    qualifiedNames := (s.enter d).qualifiedNames }

/-- The store with one more parameter of a definition. -/
def pushParameter (s : Store) (definition : TypeId) (entry : String × Nat) : Store :=
  s.push (.parameter entry.1 (.typeParameter definition entry.2))

/-- The store in which a definition has got its parameters as arguments. -/
def giveArguments (s : Store) (type : TypeId) (params : List TypeId) : Store :=
  { s with types := s.types.modify type fun d =>
      { d with origin := if params = [] then d.origin else .definition params } }

/-- Enters the type of a declaration, then its parameters, and makes them its arguments. -/
def enterTraced (s : Store) (d : Declaration) : Traced Unit := do
  step 0 (set (s.begin d))
  d.parameters.zipIdx.forM fun entry => step 0 (modify fun t => t.pushParameter s.size entry)
  step 0 (modify fun t => t.giveArguments s.size (s.nextParameters d))

theorem foldl_pushParameter (definition : TypeId) (entries : List (String × Nat)) :
    ∀ t : Store, entries.foldl (fun t entry => t.pushParameter definition entry) t =
      { t with types := t.types ++ entries.map fun entry =>
          Descriptor.parameter entry.1 (.typeParameter definition entry.2) } := by
  induction entries with
  | nil => exact fun t => by simp
  | cons entry entries ih =>
    intro t
    rw [List.foldl_cons, ih]
    simp [pushParameter, push]

theorem modify_append_cons {α : Type} (f : α → α) (a : α) (later : List α) :
    ∀ earlier : List α,
      (earlier ++ a :: later).modify earlier.length f = earlier ++ f a :: later
  | [] => rfl
  | first :: earlier => congrArg (first :: ·) (modify_append_cons f a later earlier)

/-- In the end the type has been entered. -/
theorem giveArguments_begin (s : Store) (d : Declaration) :
    (d.parameters.zipIdx.foldl (fun t entry => t.pushParameter s.size entry)
      (s.begin d)).giveArguments s.size (s.nextParameters d) = s.enter d := by
  have hempty : s.nextParameters d = [] ↔ d.parameters.length = 0 := List.range'_eq_nil_iff
  rw [foldl_pushParameter]
  refine congrArg (fun types => { s.enter d with types := types }) (Array.toList_inj.mp ?_)
  refine Eq.trans ?_ (types_enter s d).symm
  rw [Array.toList_modify, Array.toList_appendList, begin, push, Array.toList_push,
    List.append_assoc, List.singleton_append, List.mapIdx_eq_zipIdx_map, size,
    ← Array.length_toList, modify_append_cons]
  refine congrArg (fun own => s.types.toList ++ own :: _) ?_
  unfold entered
  by_cases harity : d.parameters.length = 0
  · rw [if_pos harity, if_pos (hempty.mpr harity), if_pos harity]
  · rw [if_neg harity, if_neg (mt hempty.mp harity), if_neg harity]
    rfl

/-! ### The moments in between -/

/-- A type that is pushed without arguments is none itself, and has none. -/
theorem ArgumentsFirst.push (h : s.ArgumentsFirst) {e : Descriptor} (he : e.arguments = [])
    (htypes : t.types = (s.push e).types) : t.ArgumentsFirst := by
  refine h.of_subset fun arg type => ?_
  rintro ⟨e', he', harg⟩
  have hget : t.get? type = (s.push e).get? type := by rw [get?, get?, htypes]
  rw [hget, get?_push] at he'
  split at he'
  · cases he'
    rw [he] at harg
    cases harg
  · exact ⟨e', he', harg⟩

theorem argumentsFirst_begin (hs : s.WellFormed) (d : Declaration) :
    (s.begin d).ArgumentsFirst := by
  refine hs.argumentsFirst.push (e := .bare d.name d.effectiveQualifier d.kind d.modifiers
    (if d.parameters.length = 0 then .declared else .definition [])) ?_ rfl
  by_cases harity : d.parameters.length = 0 <;>
    simp [Descriptor.arguments, Descriptor.bare, harity]

/-- Changes for every entry of a list are made one after the other. -/
theorem forM_modify {α : Type} (f : Store → α → Store) (as : List α) :
    ∀ s : Store, (as.forM fun a => (modify fun t => f t a : Build PUnit)) s =
      (.ok ⟨⟩, as.foldl f s) := by
  induction as with
  | nil => exact fun _ => rfl
  | cons a as ih => exact fun s => ih (f s a)

/-- Entering a type comes to its end. -/
theorem follows_enterTraced (hs : s.WellFormed) (henter : (s.enter d).WellFormed) :
    Follows (fun _ => enterTraced s d) (set (s.enter d)) s := by
  have hpush := forM_modify (fun t entry => t.pushParameter s.size entry) d.parameters.zipIdx
    (s.begin d)
  have hrun : (set (s.enter d) : Build Unit) s =
      (do
        set (s.begin d)
        d.parameters.zipIdx.forM fun entry => modify fun t => t.pushParameter s.size entry
        modify fun t => t.giveArguments s.size (s.nextParameters d) : Build Unit) s := by
    rw [Build.set_bind, Build.bind_of_ok hpush, ← giveArguments_begin]
    rfl
  refine Follows.congr ?_ hrun
  have hbegin := argumentsFirst_begin hs d
  refine follows_set_bind (Nat.zero_le _) hbegin.wellFounded ?_
  have hparameters : Follows
      (fun _ => d.parameters.zipIdx.forM fun entry =>
        step 0 (modify fun t => t.pushParameter s.size entry))
      (d.parameters.zipIdx.forM fun entry => modify fun t => t.pushParameter s.size entry)
      (s.begin d) := by
    refine follows_forM (fun _ t => t.ArgumentsFirst) (fun entry _ t ht => ?_) hbegin
    have hnext : (t.pushParameter s.size entry).ArgumentsFirst := ht.push rfl rfl
    exact ⟨follows_step (Nat.zero_le _) hnext.wellFounded, ends_modify hnext⟩
  have hends : (d.parameters.zipIdx.forM fun entry =>
      (modify fun t => t.pushParameter s.size entry : Build PUnit)).Ends (s.begin d)
      (fun _ t => t.giveArguments s.size (s.nextParameters d) = s.enter d) fun _ => True := by
    unfold Ends
    rw [hpush]
    exact giveArguments_begin s d
  refine hparameters.bind hends fun _ t ht => follows_step (Nat.zero_le _) ?_
  show WellFounded (t.giveArguments s.size (s.nextParameters d)).IsArgument
  rw [ht]
  exact henter.wellFounded_isArgument

/-! ## Supertypes -/

/-- The base type that a declaration names. -/
def namedBaseTraced (calls : Nat) (type : TypeId) (scope : Scope) (text : String) :
    Traced TypeId := do
  let base ← readTypeInTraced calls scope text
  let described ← step 0 (Build.ask (·.descriptor base))
  if !described.isClass then step 0 (refuse type .baseNotClass)
  else if described.modifiers.isSealed then step 0 (refuse type .baseSealed)
  else pure base

/-- The base type of a declaration. -/
def declaredBaseTraced (calls : Nat) (type : TypeId) (scope : Scope) (d : Declaration) :
    Traced (Option TypeId) :=
  match d.base with
  | some text => do
    let base ← namedBaseTraced calls type scope text
    pure (some base)
  | none => do
    let s ← step 0 get
    pure (s.impliedBase type d.kind)

/-- An interface of a declaration. -/
def declaredInterfaceTraced (calls : Nat) (type : TypeId) (scope : Scope) (text : String) :
    Traced TypeId := do
  let interface ← readTypeInTraced calls scope text
  let described ← step 0 (Build.ask (·.descriptor interface))
  if described.isInterface then pure interface
  else step 0 do refuse type (.notInterface ((← get).display interface))

/-- Resolves the supertypes of a type that has been entered, and those of its instantiations. -/
def resolveSupertypesTraced (calls : Nat) (order : ScanOrder) (type : TypeId) (d : Declaration) :
    Traced Unit := do
  let scope := d.parameters.zip (List.range' (type + 1) d.parameters.length)
  let base ← declaredBaseTraced calls type scope d
  let interfaces ← d.interfaces.mapM (declaredInterfaceTraced calls type scope)
  step 0 (modify fun s => s.setSupertypes type base interfaces.eraseDups)
  let s ← step 0 get
  (order.arrange s (s.instantiationsOf type)).forM (fillAt calls 0 type)

section Supertypes

variable (hs : s.Consistent pending) (hscope : ∀ entry ∈ scope, entry.2 < s.size)

include hs hscope

theorem follows_namedBaseTraced (text : String) :
    Follows (namedBaseTraced · type scope text) (namedBase type scope text) s := by
  refine (follows_readTypeInTraced hs hscope text).bind (readTypeIn_ends hs hscope text) ?_
  rintro base t ⟨ht, -⟩
  have hwf := ht.consistent.wellFormed
  refine follows_descriptor_bind hwf (Nat.zero_le _) fun described _ => ?_
  have hrefuse : ∀ fault, Follows (fun _ => step 0 (refuse type fault : Build TypeId))
      (refuse type fault) t :=
    fun _ => follows_look hwf (Nat.zero_le _) (refuse_ends rfl)
  refine Follows.ite (fun _ => hrefuse _) fun _ => ?_
  exact Follows.ite (fun _ => hrefuse _) fun _ => follows_pure base

theorem follows_declaredBaseTraced (d : Declaration) :
    Follows (declaredBaseTraced · type scope d) (declaredBase type scope d) s := by
  unfold declaredBaseTraced declaredBase
  cases d.base with
  | some text =>
    exact (follows_namedBaseTraced hs hscope text).bind (Build.ends_true _ _)
      fun base _ _ => follows_pure (some base)
  | none => exact follows_get_bind hs.wellFormed (Nat.zero_le _) (follows_pure _)

theorem follows_declaredInterfaceTraced (text : String) :
    Follows (declaredInterfaceTraced · type scope text) (declaredInterface type scope text) s := by
  refine (follows_readTypeInTraced hs hscope text).bind (readTypeIn_ends hs hscope text) ?_
  rintro interface t ⟨ht, -⟩
  have hwf := ht.consistent.wellFormed
  refine follows_descriptor_bind hwf (Nat.zero_le _) fun described _ => ?_
  exact Follows.ite (fun _ => follows_pure interface)
    fun _ => follows_look hwf (Nat.zero_le _) (Ends.bind (ends_get (refuse_ends rfl)))

end Supertypes

/-- Filling in the supertypes of all pending instantiations comes to its end. -/
theorem follows_fillAll {types : List TypeId} (hs : s.Consistent (· ∈ types))
    (hinst : ∀ other ∈ types, ∃ args isOpen,
      s.origin? other = some (.instantiation type args isOpen)) :
    Follows (fun calls => types.forM (fillAt calls 0 type))
      (types.forM (substituteSupertypes (instantiateWithin maxInstantiationDepth) type)) s := by
  -- those still to come are the ones that are pending
  refine follows_forM (fun rest t => t.Consistent (· ∈ rest) ∧ ∀ other ∈ rest, ∃ args isOpen,
    t.origin? other = some (.instantiation type args isOpen)) ?_ ⟨hs, hinst⟩
  rintro other rest t ⟨ht, horigins⟩
  have happly := instantiateWithin_applies maxInstantiationDepth
  refine ⟨follows_fillAt (Nat.zero_le _) (happly _) (fun u hu => ?_) ht, ?_⟩
  · exact follows_instantiateAt maxInstantiationDepth (Nat.add_comm _ _) hu
  · refine (substituteSupertypes_ends (happly _) ht (fun x hx => (List.mem_cons.mp hx).symm)
      (horigins other List.mem_cons_self)).mono ?_ fun _ _ => trivial
    rintro - u ⟨hu, v, base, interfaces, hv, rfl⟩
    refine ⟨hu, fun x hx => ?_⟩
    obtain ⟨args, isOpen, ho⟩ := horigins x (List.mem_cons_of_mem _ hx)
    have hkeeps := hv.keepsOutlines.trans (v.keepsOutlines_setSupertypes other base interfaces)
    exact ⟨args, isOpen, hkeeps.origin?_some ho⟩

/-- Resolving the supertypes of an entered type comes to its end. -/
theorem follows_resolveSupertypesTraced (hs : s.Coherent) (hkind : d.kind ≠ .parameter)
    (hnew : s.qualifiedNames[(d.qualifiedName, d.parameters.length)]? = none)
    (hbase : d.kind = .interface → d.base = none) :
    Follows (resolveSupertypesTraced · order s.size d) (resolveSupertypes order s.size d)
      (s.enter d) := by
  have hentered := hs.enter hkind hnew
  have hscope := s.lt_of_mem_scope d
  refine (follows_declaredBaseTraced hentered hscope d).bind
    (declaredBase_ends hentered hscope hbase) ?_
  rintro base t ⟨ht, hbaseKind, hnone⟩
  have hscope' : ∀ entry ∈ d.parameters.zip (s.nextParameters d), entry.2 < t.size :=
    lt_size_of_advances ht hscope
  have hinterfaces : ∀ text ∈ d.interfaces, ∀ u, t.Advances (fun _ => False) u →
      Follows (declaredInterfaceTraced · s.size (d.parameters.zip (s.nextParameters d)) text)
        (declaredInterface s.size (d.parameters.zip (s.nextParameters d)) text) u ∧
        (declaredInterface s.size (d.parameters.zip (s.nextParameters d)) text).Ends u
          (fun _ v => t.Advances (fun _ => False) v) fun _ => True := by
    intro text _ u hu
    have hscopeu := lt_size_of_advances hu hscope'
    exact ⟨follows_declaredInterfaceTraced hu.consistent hscopeu text,
      (declaredInterface_ends hu.consistent hscopeu text).mono (fun _ v hv => hu.trans hv.1)
        fun _ _ => trivial⟩
  refine (follows_mapM _ ht.consistent.advances_self hinterfaces).bind
    (declaredInterfaces_ends ht.consistent hscope' d.interfaces) ?_
  rintro interfaces u ⟨hu, hkinds⟩
  have hsu := ht.trans hu
  have hwf := wellFormed_setSupertypes_entered hkind hsu
    (fun b hb => hu.builds.keepsOutlines.kind?_some (hbaseKind b hb)) hkinds hnone
  refine follows_modify_bind (Nat.zero_le _) hwf.wellFounded_isArgument ?_
  refine follows_get_bind hwf (Nat.zero_le _) ?_
  exact follows_fillAll (hsu.consistent.setSupertypes_declared (get?_entered hsu)
    (s.isInstantiation_entered d) hwf) fun other hother =>
      (mem_arrange_instantiationsOf hwf).mp hother

/-! ## The declaration as a whole -/

/-- Adds a type whose declaration is in order and whose name is free. -/
def introduceTraced (calls : Nat) (order : ScanOrder) (d : Declaration) : Traced TypeId :=
  Traced.atomic do
    let s ← step 0 get
    enterTraced s d
    resolveSupertypesTraced calls order s.size d
    pure s.size

/-- Declares a type. -/
def declareTraced (calls : Nat) (d : Declaration) (order : ScanOrder) : Traced TypeId :=
  match d.fault? with
  | some fault => step 0 (throw (.invalidDeclaration d.qualifiedName fault))
  | none => do
    step 0 (Build.meet [d.name, d.qualifiedName])
    let s ← step 0 get
    if s.qualifiedNames.contains (d.qualifiedName, d.parameters.length) then
      step 0 (throw (.duplicateType d.qualifiedName))
    else do
      step 0 (Build.meet (d.effectiveQualifier.toList ++ d.parameters))
      introduceTraced calls order d

theorem follows_introduceTraced (hs : s.Coherent) (hkind : d.kind ≠ .parameter)
    (hnew : s.qualifiedNames[(d.qualifiedName, d.parameters.length)]? = none)
    (hbase : d.kind = .interface → d.base = none) :
    Follows (introduceTraced · order d) (introduce order d) s := by
  have hentered := hs.enter hkind hnew
  have hgrows : (do
      let s ← get
      set (s.enter d)
      resolveSupertypes order s.size d
      pure s.size : Build TypeId).Ends s (fun _ _ => True) fun t => s.Grows t :=
    Ends.bind (ends_get (Ends.bind (ends_set (Ends.bind
      ((resolveSupertypes_ends hs hkind hnew hbase).mono (fun _ _ _ => ends_pure trivial)
        fun _ => id)))))
  refine follows_atomic hs.wellFormed hgrows ?_
  refine follows_get_bind hs.wellFormed (Nat.zero_le _) ?_
  have hset : (set (s.enter d) : Build Unit).Ends s (fun _ t => t = s.enter d) fun _ => True :=
    ends_set rfl
  refine (follows_enterTraced hs.wellFormed hentered.wellFormed).bind hset ?_
  rintro - t rfl
  refine (follows_resolveSupertypesTraced hs hkind hnew hbase).bind (Build.ends_true _ _) ?_
  exact fun _ t _ => follows_pure s.size

theorem follows_meet_bind {α : Type} {next : Nat → PUnit → Traced α} {next' : PUnit → Build α}
    (hs : s.Coherent) (names : List String)
    (hnext : ∀ t, s.UnchangedButNames t → Follows (fun calls => next calls ⟨⟩) (next' ⟨⟩) t) :
    Follows (fun calls => step 0 (Build.meet names) >>= next calls)
      (Build.meet names >>= next') s := by
  have hlater := s.unchangedButNames_addAll names
  exact follows_modify_bind (Nat.zero_le _)
    (hs.wellFormed.unchangedButNames hlater).wellFounded_isArgument (hnext _ hlater)

/-- Declaring comes to its end. -/
theorem follows_declareTraced (hs : s.Coherent) (d : Declaration) (order : ScanOrder) :
    Follows (declareTraced · d order) (declare d order) s := by
  unfold declareTraced declare
  cases hfault : d.fault? with
  | some fault => exact follows_look hs.wellFormed (Nat.zero_le _) (ends_throw rfl)
  | none =>
    obtain ⟨hkind, hbase⟩ := kind_of_fault?_eq_none hfault
    refine follows_meet_bind hs _ fun t hst => ?_
    have ht := hs.unchangedButNames hst
    refine follows_get_bind ht.wellFormed (Nat.zero_le _) ?_
    refine Follows.ite (fun _ => follows_look ht.wellFormed (Nat.zero_le _) (ends_throw rfl))
      fun hnew => ?_
    refine follows_meet_bind ht _ fun u htu => ?_
    exact follows_introduceTraced (ht.unchangedButNames htu) hkind
      (htu.qualifiedNames_eq_none hnew) hbase

end NominalTypes.Store
