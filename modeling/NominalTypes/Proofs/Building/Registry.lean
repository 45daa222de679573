import NominalTypes.Proofs.Building.Naming
import NominalTypes.Proofs.Building.Reachable

/-!
# The tables of names tell what the descriptors tell

The tables by which types are found are filled while a declaration is still under way, and cleaned
up if it fails. After every operation they hold what could be read off the descriptors as well: a
declared type is entered under its simple name and under its qualified name, in the order of
declaration, and nothing else is.

- `Store.OnlyBuilds`: reading a type expression builds instantiations and enters no name.
- `Store.Declares`: what a successful declaration has done.
- `Store.declaredAs`: the declared types of a name and arity, read off the descriptors.
- `Store.Registered`: the tables agree with the descriptors.
- `Operation.Registers`, `Operation.perform_registers`: the courses that an operation may take with
  the names of a store.
- `Store.Reachable.registered`: the tables of reachable stores agree with the descriptors.
-/

namespace NominalTypes

open Build (Ends ends_pure ends_throw ends_get ends_set ends_modify)

namespace Store

variable {pending : TypeId → Prop} {s t u met : Store} {type : TypeId} {d : Declaration}
  {order : ScanOrder}

/-! ## Reading enters no name -/

/-- From consistent stores the operation builds instantiations and does nothing else, whether it
fails or not. -/
def OnlyBuilds {α : Type} (pending : TypeId → Prop) (operation : Build α) : Prop :=
  ∀ s : Store, s.Consistent pending →
    operation.Ends s (fun _ t => s.Advances pending t ∧ s.SameNaming t)
      fun t => s.Advances pending t ∧ s.SameNaming t

namespace OnlyBuilds

variable {α β : Type} {scope : Scope}

theorem pure (a : α) : OnlyBuilds pending (pure a : Build α) := fun s hs =>
  ends_pure ⟨hs.advances_self, .refl s⟩

theorem throw (error : StoreError) : OnlyBuilds pending (throw error : Build α) := fun s hs =>
  ends_throw ⟨hs.advances_self, .refl s⟩

theorem get : OnlyBuilds pending (get : Build Store) := fun s hs =>
  ends_get ⟨hs.advances_self, .refl s⟩

theorem ask (question : Store → Except RelationError α) :
    OnlyBuilds pending (Build.ask question) := fun s hs =>
  Build.ends_ask (fun _ _ => ⟨hs.advances_self, .refl s⟩) ⟨hs.advances_self, .refl s⟩

theorem bind {operation : Build α} {next : α → Build β} (h : OnlyBuilds pending operation)
    (hnext : ∀ a, OnlyBuilds pending (next a)) : OnlyBuilds pending (operation >>= next) := by
  intro s hs
  refine Ends.bind ((h s hs).mono (fun a t ht => ?_) fun _ => id)
  refine (hnext a t ht.1.consistent).mono (fun _ u hu => ?_) fun u hu => ?_
  all_goals exact ⟨ht.1.trans hu.1, ht.2.trans hu.2⟩

theorem mapM {f : α → Build β} (h : ∀ a, OnlyBuilds pending (f a)) :
    ∀ as : List α, OnlyBuilds pending (as.mapM f)
  | [] => by
    rw [List.mapM_nil]
    exact pure []
  | a :: as => by
    rw [List.mapM_cons]
    exact (h a).bind fun _ => (mapM h as).bind fun _ => pure _

theorem find (name : String) (arity : Nat) : OnlyBuilds pending (find name arity) := by
  refine get.bind fun s => ?_
  split
  · exact pure _
  · exact throw _

theorem instantiate (definition : TypeId) (args : List TypeId) :
    OnlyBuilds pending (instantiate definition args) := fun _ hs =>
  ((instantiate_ends hs).and (instantiate_sameNaming hs definition args)).mono
    (fun _ _ ht => ⟨⟨ht.1.consistent, ht.1.builds⟩, ht.2⟩)
    fun _ ht => ⟨hs.advances_names ht.1, ht.2⟩

theorem nullableForm (type : TypeId) : OnlyBuilds pending (nullableForm type) := by
  refine get.bind fun s => ?_
  split
  · exact instantiate _ _
  · exact throw _

mutual

theorem resolveIn : ∀ expr : TypeExpr, OnlyBuilds pending (resolveIn scope expr)
  | .named name [] => by
    rw [Store.resolveIn]
    split
    · exact pure _
    · exact find name 0
  | .named name (arg :: rest) => by
    rw [Store.resolveIn]
    exact (find name _).bind fun _ => (resolveIn arg).bind fun _ => (resolveAllIn rest).bind
      fun _ => instantiate _ _
  | .blanks name arity => by
    rw [Store.resolveIn]
    refine (find name arity).bind fun definition => (ask _).bind fun d => ?_
    split
    · exact pure _
    · exact throw _
  | .nullable inner => by
    rw [Store.resolveIn]
    exact (resolveIn inner).bind nullableForm

theorem resolveAllIn : ∀ exprs : List TypeExpr, OnlyBuilds pending (resolveAllIn scope exprs)
  | [] => by
    rw [Store.resolveAllIn]
    exact pure []
  | arg :: rest => by
    rw [Store.resolveAllIn]
    exact (resolveIn arg).bind fun _ => (resolveAllIn rest).bind fun _ => pure _

end

theorem readTypeIn (text : String) : OnlyBuilds pending (readTypeIn scope text) := by
  refine bind ?_ resolveIn
  unfold readExpr
  split
  · exact pure _
  · exact throw _

theorem refuse (type : TypeId) (fault : DeclarationFault) :
    OnlyBuilds pending (refuse type fault : Build α) := get.bind fun _ => throw _

theorem declaredBase (type : TypeId) (d : Declaration) :
    OnlyBuilds pending (declaredBase type scope d) := by
  unfold Store.declaredBase
  split
  · refine bind ((readTypeIn _).bind fun base => (ask _).bind fun described => ?_) fun _ => pure _
    split
    · exact refuse _ _
    split
    · exact refuse _ _
    · exact pure _
  · exact get.bind fun _ => pure _

theorem declaredInterface (type : TypeId) (text : String) :
    OnlyBuilds pending (declaredInterface type scope text) := by
  refine (readTypeIn text).bind fun interface => (ask _).bind fun described => ?_
  split
  · exact pure _
  · exact get.bind fun _ => refuse _ _

end OnlyBuilds

/-! ## Declarations -/

theorem KeepsNaming.forM {α : Type} {f : α → Build PUnit} (h : ∀ a, KeepsNaming (f a)) :
    ∀ as : List α, KeepsNaming (as.forM f)
  | [] => .pure PUnit.unit
  | a :: as => (h a).bind fun _ => forM h as

/-- Resolving the supertypes of a type enters no name. -/
theorem resolveSupertypes_sameNaming (hs : s.Consistent pending) (type : TypeId) (d : Declaration) :
    (resolveSupertypes order type d).Ends s (fun _ t => s.SameNaming t) fun _ => True := by
  refine Ends.bind ((OnlyBuilds.declaredBase type d s hs).mono ?_ fun _ _ => trivial)
  rintro base t ⟨hst, hnaming⟩
  refine Ends.bind ((OnlyBuilds.mapM (OnlyBuilds.declaredInterface type) d.interfaces t
    hst.consistent).mono ?_ fun _ _ => trivial)
  rintro interfaces u ⟨-, hnaming'⟩
  refine Ends.bind (ends_modify (Ends.bind (ends_get ?_)))
  have hset : s.SameNaming (u.setSupertypes type base interfaces.eraseDups) :=
    hnaming.trans (hnaming'.trans ⟨rfl, rfl, rfl, rfl, rfl, rfl⟩)
  exact (KeepsNaming.forM (substituteSupertypes_keepsNaming (instantiateWithin_keepsNaming _) type)
    _ _).mono (fun _ _ ht => hset.trans ht) fun _ _ => trivial

/-- What a successful declaration has done. After the names of the declaration have been met, its
type and its parameters have been entered, and whatever has come after that is no declared type. -/
structure Declares (s : Store) (d : Declaration) (met t : Store) : Prop where
  fault : d.fault? = none
  unchanged : s.UnchangedButNames met
  new : met.qualifiedNames[(d.qualifiedName, d.parameters.length)]? = none
  outlines : (met.enter d).KeepsOutlines t
  naming : (met.enter d).SameNaming t

/-- A declaration enters its type, or leaves the store unchanged. -/
theorem declare_declares (hs : s.Coherent) (d : Declaration) :
    (declare d order).Ends s (fun _ t => ∃ met, s.Declares d met t)
      fun t => s.UnchangedButNames t := by
  refine declare_ends_of fun u hfault hsu hnew => ?_
  obtain ⟨hkind, hbase⟩ := kind_of_fault?_eq_none hfault
  have hu := hs.unchangedButNames hsu
  refine ((resolveSupertypes_ends hu hkind hnew hbase).and (resolveSupertypes_sameNaming
    (hu.enter hkind hnew) u.size d)).mono ?_ fun _ hv => hv.1
  rintro - v ⟨⟨-, -, houtlines⟩, hnaming⟩
  exact ⟨u, hfault, hsu, hnew, houtlines, hnaming⟩

/-! ## Names read off the descriptors -/

/-- The simple name of a type. -/
def name? (s : Store) (type : TypeId) : Option String := (s.get? type).map Descriptor.name

/-- The type is declared with the arity, and under the name in one of the two styles: short for
simple names, full for qualified ones. -/
def isDeclaredAs (s : Store) (style : LabelStyle) (name : String) (arity : Nat) (type : TypeId) :
    Bool :=
  (s.get? type).any fun d => d.origin.isDeclared && headName style d == name && d.arity == arity

/-- The declared types of a name and arity, in the order of their declaration. -/
def declaredAs (s : Store) (style : LabelStyle) (name : String) (arity : Nat) : List TypeId :=
  (List.range s.size).filter (s.isDeclaredAs style name arity)

section DeclaredAs

variable {style : LabelStyle} {name : String} {arity : Nat}

theorem isDeclaredAs_iff : s.isDeclaredAs style name arity type = true ↔
    ∃ e, s.get? type = some e ∧ e.origin.isDeclared = true ∧ headName style e = name ∧
      e.arity = arity := by
  simp only [isDeclaredAs, Option.any_eq_true, Bool.and_eq_true, beq_iff_eq, and_assoc]

theorem mem_declaredAs : type ∈ s.declaredAs style name arity ↔
    ∃ e, s.get? type = some e ∧ e.origin.isDeclared = true ∧ headName style e = name ∧
      e.arity = arity := by
  rw [declaredAs, List.mem_filter, isDeclaredAs_iff, List.mem_range]
  exact and_iff_right_of_imp fun ⟨_, he, _⟩ => lt_of_get? he

theorem KeepsOutlines.name?_eq (h : s.KeepsOutlines t) (htype : type < s.size) :
    t.name? type = s.name? type := by
  have hname : ∀ u : Store, u.name? type = (u.outline? type).map Descriptor.name := fun u => by
    unfold name? outline?
    rw [Option.map_map]
    rfl
  rw [hname, hname, h.outline type htype]

theorem KeepsOutlines.isDeclaredAs_eq (h : s.KeepsOutlines t) (htype : type < s.size) :
    t.isDeclaredAs style name arity type = s.isDeclaredAs style name arity type := by
  have hdeclared : ∀ u : Store, u.isDeclaredAs style name arity type = (u.outline? type).any
      fun d => d.origin.isDeclared && headName style d == name && d.arity == arity := fun u => by
    unfold isDeclaredAs outline?
    rw [Option.any_map]
    cases style <;> rfl
  rw [hdeclared, hdeclared, h.outline type htype]

/-- The declared types of a later store are those of the earlier one and the new ones. -/
theorem KeepsOutlines.declaredAs_eq (h : s.KeepsOutlines t) : t.declaredAs style name arity =
    s.declaredAs style name arity ++
      (List.range' s.size (t.size - s.size)).filter (t.isDeclaredAs style name arity) := by
  have hsize : List.range t.size = List.range s.size ++ List.range' s.size (t.size - s.size) := by
    have hadd := List.range'_append_1 (s := 0) (m := s.size) (n := t.size - s.size)
    rw [Nat.zero_add, Nat.add_sub_cancel' h.size_le] at hadd
    rw [List.range_eq_range', List.range_eq_range', hadd]
  rw [declaredAs, declaredAs, hsize, List.filter_append]
  congr 1
  exact List.filter_congr fun other hother => h.isDeclaredAs_eq (List.mem_range.mp hother)

/-- A declared type is found by its qualified name. -/
theorem NamesFit.qualifiedNames_of_mem (hs : s.NamesFit)
    (h : type ∈ s.declaredAs .full name arity) : s.qualifiedNames[(name, arity)]? = some type := by
  obtain ⟨e, he, hdeclared, rfl, rfl⟩ := mem_declaredAs.mp h
  exact hs.qualifiedNames_eq he hdeclared

end DeclaredAs

/-! ## Tables that agree with the descriptors -/

/-- The tables of names hold the declared types of each name and arity, oldest first; no two
parameters of a definition have the same name; and a free parameter has the name by which it is
found. -/
structure Registered (s : Store) : Prop where
  simpleNames : ∀ (name : String) (arity : Nat),
    (s.simpleNames[(name, arity)]?).getD [] = s.declaredAs .short name arity
  qualifiedNames : ∀ (name : String) (arity : Nat) (type : TypeId),
    s.qualifiedNames[(name, arity)]? = some type → type ∈ s.declaredAs .full name arity
  parameters : ∀ (definition : TypeId) (params : List TypeId),
    s.origin? definition = some (.definition params) → (params.map s.name?).Nodup
  freeParameters : ∀ (name : String) (type : TypeId),
    s.freeParameters[name]? = some type → s.name? type = some name

/-- The names of the parameters of a known definition stay distinct. -/
theorem Registered.parameters_later (hs : s.Registered) (hwf : s.WellFormed)
    (hkeeps : s.KeepsOutlines t) {definition : TypeId} {params : List TypeId}
    (hold : definition < s.size) (ho : t.origin? definition = some (.definition params)) :
    (params.map t.name?).Nodup := by
  rw [hkeeps.origin?_eq hold] at ho
  have hnames : params.map t.name? = params.map s.name? := by
    refine List.map_congr_left fun param hparam => hkeeps.name?_eq ?_
    obtain ⟨position, hposition⟩ := hwf.parameter_origin? ho hparam
    exact lt_of_origin? hposition
  rw [hnames]
  exact hs.parameters definition params ho

/-- Both stores find the same declared types by name, and the later one may know some free
parameters more. -/
structure SameTables (s t : Store) : Prop where
  simpleNames : t.simpleNames = s.simpleNames
  qualifiedNames : t.qualifiedNames = s.qualifiedNames
  freeParameters : ∀ (name : String) (type : TypeId), t.freeParameters[name]? = some type →
    s.freeParameters[name]? = some type ∨ t.name? type = some name

namespace SameTables

theorem of_sameNaming (h : s.SameNaming t) : s.SameTables t :=
  ⟨h.simpleNames, h.qualifiedNames, fun _ _ hfree => .inl (h.freeParameters ▸ hfree)⟩

theorem of_unchangedButNames (h : s.UnchangedButNames t) : s.SameTables t :=
  .of_sameNaming h.sameNaming

theorem trans (h : s.SameTables t) (h' : t.SameTables u) (htu : t.KeepsOutlines u) :
    s.SameTables u where
  simpleNames := h'.simpleNames.trans h.simpleNames
  qualifiedNames := h'.qualifiedNames.trans h.qualifiedNames
  freeParameters name type hfree := by
    rcases h'.freeParameters name type hfree with hold | hnew
    · rcases h.freeParameters name type hold with holder | hnew
      · exact .inl holder
      · obtain ⟨e, he, -⟩ := Option.map_eq_some_iff.mp hnew
        exact .inr ((htu.name?_eq (lt_of_get? he)).trans hnew)
    · exact .inr hnew

/-- No type is declared without being entered. -/
theorem lt_of_isDeclared (h : s.SameTables t) (hs : s.Closed) (ht : t.NamesFit) {e : Descriptor}
    (he : t.get? type = some e) (hdeclared : e.origin.isDeclared = true) : type < s.size := by
  have hqualified := ht.qualifiedNames_eq he hdeclared
  rw [h.qualifiedNames] at hqualified
  exact hs.qualifiedNames _ _ hqualified

theorem declaredAs_eq (h : s.SameTables t) (hs : s.Closed) (ht : t.NamesFit)
    (hkeeps : s.KeepsOutlines t) (style : LabelStyle) (name : String) (arity : Nat) :
    t.declaredAs style name arity = s.declaredAs style name arity := by
  rw [hkeeps.declaredAs_eq, List.append_right_eq_self, List.filter_eq_nil_iff]
  intro type hnew hdeclared
  obtain ⟨e, he, hdeclared, -⟩ := isDeclaredAs_iff.mp hdeclared
  have hold := h.lt_of_isDeclared hs ht he hdeclared
  exact absurd hold (Nat.not_lt.mpr (List.mem_range'_1.mp hnew).1)

/-- Tables that agree with the descriptors go on to do so. -/
theorem registered (h : s.SameTables t) (hs : s.Registered) (hwf : s.WellFormed) (ht : t.NamesFit)
    (hkeeps : s.KeepsOutlines t) : t.Registered where
  simpleNames name arity := by
    rw [h.simpleNames, h.declaredAs_eq hwf.closed ht hkeeps, hs.simpleNames]
  qualifiedNames name arity type hqualified := by
    rw [h.qualifiedNames] at hqualified
    rw [h.declaredAs_eq hwf.closed ht hkeeps]
    exact hs.qualifiedNames name arity type hqualified
  parameters definition params ho := by
    obtain ⟨e, he, horigin⟩ := Option.map_eq_some_iff.mp ho
    have hold := h.lt_of_isDeclared hwf.closed ht he (by rw [horigin]; rfl)
    exact hs.parameters_later hwf hkeeps hold ho
  freeParameters name type hfree := by
    rcases h.freeParameters name type hfree with hold | hnew
    · rw [hkeeps.name?_eq (hwf.closed.freeParameters name type hold)]
      exact hs.freeParameters name type hold
    · exact hnew

end SameTables

/-! ## Entering a declaration -/

section Enter

theorem isDeclared_entered (s : Store) (d : Declaration) :
    (s.entered d).origin.isDeclared = true := by
  unfold entered
  dsimp only [Descriptor.bare]
  split <;> rfl

/-- Entering a declaration declares one type more, the youngest one. -/
theorem Closed.declaredAs_enter (hs : s.Closed)
    (hnew : s.qualifiedNames[(d.qualifiedName, d.parameters.length)]? = none) (style : LabelStyle)
    (name : String) (arity : Nat) : (s.enter d).declaredAs style name arity =
      s.declaredAs style name arity ++
        if headName style (s.entered d) = name ∧ d.parameters.length = arity then [s.size]
        else [] := by
  rw [(hs.grows_enter hnew).keepsOutlines.declaredAs_eq]
  have hcount : (s.enter d).size - s.size = d.parameters.length + 1 := by
    rw [size_enter]
    omega
  have hown : (s.enter d).isDeclaredAs style name arity s.size =
      decide (headName style (s.entered d) = name ∧ d.parameters.length = arity) := by
    rw [Bool.eq_iff_iff, isDeclaredAs_iff, decide_eq_true_eq, get?_enter_own]
    simp only [Option.some.injEq, exists_eq_left', isDeclared_entered, arity_entered, true_and]
  have hparameters : (List.range' (s.size + 1) d.parameters.length).filter
      ((s.enter d).isDeclaredAs style name arity) = [] := by
    refine List.filter_eq_nil_iff.mpr fun other hother hdeclared => ?_
    obtain ⟨position, -, rfl⟩ := List.mem_range'.mp hother
    obtain ⟨e, he, hdeclared, -⟩ := isDeclaredAs_iff.mp hdeclared
    rw [Nat.one_mul, get?_enter_parameter] at he
    obtain ⟨_, -, rfl⟩ := Option.map_eq_some_iff.mp he
    cases hdeclared
  rw [hcount, List.range'_succ, List.filter_cons, hown, hparameters]
  congr 1
  by_cases h : headName style (s.entered d) = name ∧ d.parameters.length = arity
  · rw [decide_eq_true h, if_pos rfl, if_pos h]
  · rw [decide_eq_false h, if_neg h, if_neg (by simp)]

/-- The parameters of the entered type have the names that are declared. -/
theorem map_name?_nextParameters (s : Store) (d : Declaration) :
    (s.nextParameters d).map (s.enter d).name? = d.parameters.map some := by
  refine List.ext_getElem? fun position => ?_
  rw [List.getElem?_map, List.getElem?_map]
  by_cases hposition : position < d.parameters.length
  · rw [getElem?_nextParameters.mpr ⟨hposition, rfl⟩, Option.map_some, name?, get?_enter_parameter,
      List.getElem?_eq_getElem hposition]
    rfl
  · rw [List.getElem?_eq_none (Nat.le_of_not_lt hposition), List.getElem?_eq_none]
    · rfl
    · rw [nextParameters, List.length_range']
      exact Nat.le_of_not_lt hposition

/-- Among the entered types, only the declared one can be a definition, and then its parameters are
the declared ones. -/
theorem params_of_enter {definition : TypeId} {params : List TypeId} (hnew : ¬ definition < s.size)
    (ho : (s.enter d).origin? definition = some (.definition params)) :
    params = s.nextParameters d := by
  obtain ⟨e, he, horigin⟩ := Option.map_eq_some_iff.mp ho
  rcases get?_enter_new (Nat.le_of_not_lt hnew) he with ⟨rfl, rfl⟩ | ⟨_, _, -, -, rfl⟩
  · unfold entered Descriptor.bare at horigin
    dsimp only at horigin
    split at horigin
    · cases horigin
    · cases horigin
      rfl
  · cases horigin

/-- The names of the declaration are entered as the descriptors tell them. -/
theorem Registered.enter (hs : s.Registered) (hwf : s.WellFormed) (hnodup : d.parameters.Nodup)
    (hnew : s.qualifiedNames[(d.qualifiedName, d.parameters.length)]? = none) :
    (s.enter d).Registered where
  simpleNames name arity := by
    have hshort : headName .short (s.entered d) = d.name := rfl
    rw [hwf.closed.declaredAs_enter hnew, hshort, simpleNames_enter, ← hs.simpleNames]
    -- the new type is the youngest one, so it comes last in both lists
    by_cases hkey : d.name = name ∧ d.parameters.length = arity
    · obtain ⟨rfl, rfl⟩ := hkey
      rw [if_pos rfl, if_pos ⟨rfl, rfl⟩, Option.getD_some]
    · rw [if_neg hkey, if_neg fun h => hkey (Prod.mk.inj h.symm), List.append_nil]
  qualifiedNames name arity type hqualified := by
    have hfull : headName .full (s.entered d) = d.qualifiedName := s.qualifiedName_entered d
    rw [hwf.closed.declaredAs_enter hnew, hfull, List.mem_append]
    rw [qualifiedNames_enter] at hqualified
    split at hqualified
    · next hkey =>
      obtain ⟨rfl, rfl⟩ := Prod.mk.inj hkey
      cases hqualified
      rw [if_pos ⟨rfl, rfl⟩]
      exact .inr List.mem_cons_self
    · exact .inl (hs.qualifiedNames name arity type hqualified)
  parameters definition params ho := by
    by_cases hold : definition < s.size
    · exact hs.parameters_later hwf (hwf.closed.grows_enter hnew).keepsOutlines hold ho
    · rw [params_of_enter hold ho, map_name?_nextParameters]
      exact List.Pairwise.map some (fun _ _ hne heq => hne (Option.some.inj heq)) hnodup
  freeParameters name type hfree := by
    have hkeeps := (hwf.closed.grows_enter hnew).keepsOutlines
    rw [hkeeps.name?_eq (hwf.closed.freeParameters name type hfree)]
    exact hs.freeParameters name type hfree

theorem nodup_of_fault?_eq_none (h : d.fault? = none) : d.parameters.Nodup := by
  unfold Declaration.fault? at h
  split_ifs at h with _ _ _ _ hnodup
  exact hnodup

/-- So are those of a declaration as a whole. -/
theorem Declares.registered (h : s.Declares d met t) (hs : s.Registered) (hcoherent : s.Coherent)
    (ht : t.NamesFit) : t.Registered := by
  have hmet := hcoherent.unchangedButNames h.unchanged
  obtain ⟨hkind, -⟩ := kind_of_fault?_eq_none h.fault
  have hregistered : met.Registered := (SameTables.of_unchangedButNames h.unchanged).registered hs
    hcoherent.wellFormed hmet.wellFormed.names h.unchanged.keepsOutlines
  have henter := hregistered.enter hmet.wellFormed (nodup_of_fault?_eq_none h.fault) h.new
  exact (SameTables.of_sameNaming h.naming).registered henter (hmet.enter hkind h.new).wellFormed ht
    h.outlines

/-- A declaration adds its type to those of its qualified name. -/
theorem Declares.declaredAs_full (h : s.Declares d met t) (hs : s.Coherent) (ht : t.NamesFit)
    (name : String) (arity : Nat) : t.declaredAs .full name arity = s.declaredAs .full name arity ++
      if d.qualifiedName = name ∧ d.parameters.length = arity then [s.size] else [] := by
  have hmet := hs.unchangedButNames h.unchanged
  obtain ⟨hkind, -⟩ := kind_of_fault?_eq_none h.fault
  rw [(SameTables.of_sameNaming h.naming).declaredAs_eq (hmet.enter hkind h.new).wellFormed.closed ht
      h.outlines, hmet.wellFormed.closed.declaredAs_enter h.new,
    (SameTables.of_unchangedButNames h.unchanged).declaredAs_eq hs.wellFormed.closed
      hmet.wellFormed.names h.unchanged.keepsOutlines, h.unchanged.size_eq]
  rfl

/-- The declared type is the only one that has been declared since. -/
theorem Declares.eq_size_of_isDeclared (h : s.Declares d met t) (hs : s.Coherent) (ht : t.NamesFit)
    {e : Descriptor} (he : t.get? type = some e) (hdeclared : e.origin.isDeclared = true)
    (hnew : s.size ≤ type) : type = s.size := by
  have hmem : type ∈ t.declaredAs .full e.qualifiedName e.arity :=
    mem_declaredAs.mpr ⟨e, he, hdeclared, rfl, rfl⟩
  rw [h.declaredAs_full hs ht, List.mem_append] at hmem
  rcases hmem with hold | hown
  · obtain ⟨_, hold, -⟩ := mem_declaredAs.mp hold
    exact absurd (lt_of_get? hold) (Nat.not_lt.mpr hnew)
  · split at hown
    · exact List.mem_singleton.mp hown
    · cases hown

end Enter

/-! ## Free parameters and keywords -/

/-- A free parameter is entered under its own name, and nothing else is. -/
theorem freeParameter_sameTables (s : Store) (name : String) :
    (freeParameter name).Ends s (fun _ t => s.SameTables t ∧ t.aliases = s.aliases)
      fun _ => False := by
  refine Ends.bind (meet_ends s [name] fun t hst => Ends.bind (ends_get ?_))
  have hnaming := hst.sameNaming
  split
  · exact ends_pure ⟨.of_sameNaming hnaming, hnaming.aliases⟩
  · have htables : s.SameTables (t.addFree name) := by
      refine ⟨hnaming.simpleNames, hnaming.qualifiedNames, fun other type hother => ?_⟩
      rw [freeParameters_addFree] at hother
      split at hother
      · next heq =>
        subst heq
        cases hother
        refine .inr ?_
        rw [name?, get?_addFree, if_pos rfl]
        rfl
      · exact .inl (hnaming.freeParameters ▸ hother)
    exact Ends.bind (ends_set (ends_pure ⟨htables, hnaming.aliases⟩))

/-- Reading a pattern enters free parameters under their own names. -/
theorem readPattern_sameTables (hs : s.Consistent pending) (text : String) (vars : List String) :
    (readPattern text vars).Ends s (fun _ t => s.SameTables t ∧ t.aliases = s.aliases)
      fun t => s.SameTables t ∧ t.aliases = s.aliases := by
  have hself : s.SameTables s ∧ s.aliases = s.aliases := ⟨.of_sameNaming (.refl s), rfl⟩
  refine Ends.bind (readExpr_ends (fun expr => ?_) hself)
  have hparams : (vars.mapM freeParameter).Ends s
      (fun _ t => t.Consistent pending ∧ s.SameTables t ∧ t.aliases = s.aliases)
      fun t => s.SameTables t ∧ t.aliases = s.aliases := by
    refine Build.ends_mapM_inv ⟨hs, hself⟩ fun name _ t ht => ?_
    refine ((freeParameter_ends ht.1 name).and (freeParameter_sameTables t name)).mono ?_
      fun _ hu => hu.1.elim
    rintro - u ⟨⟨hu, htu, -⟩, htables, haliases⟩
    exact ⟨hu, ht.2.1.trans htables htu.keepsOutlines, haliases.trans ht.2.2⟩
  refine Ends.bind (hparams.mono ?_ fun _ => id)
  rintro params t ⟨ht, hst, haliases⟩
  refine (OnlyBuilds.resolveIn expr t ht).mono (fun _ u hu => ?_) fun u hu => ?_
  all_goals exact ⟨hst.trans (.of_sameNaming hu.2) hu.1.builds.keepsOutlines,
    hu.2.aliases.trans haliases⟩

/-- A keyword is new, and is entered among the keywords only. -/
theorem addAlias_sameTables (s : Store) (keyword : String) (type : TypeId) :
    (addAlias keyword type).Ends s
      (fun _ t => s.SameTables t ∧ s.aliases[keyword]? = none ∧
        t.aliases = s.aliases.insert keyword type)
      fun t => s.UnchangedButNames t := by
  refine Ends.bind (ends_descriptor (fun _ _ => ?_) (.refl s))
  refine Ends.bind (meet_ends s _ fun t hst => Ends.bind (ends_get ?_))
  split
  · exact ends_throw hst
  · next hnew =>
    have hnaming := hst.sameNaming
    have hnone : t.aliases[keyword]? = none :=
      Std.ExtTreeMap.getElem?_eq_none_of_contains_eq_false (Bool.eq_false_iff.mpr hnew)
    refine ends_set ⟨⟨hnaming.simpleNames, hnaming.qualifiedNames, ?_⟩, ?_, ?_⟩
    · exact fun _ _ hfree => .inl (hnaming.freeParameters ▸ hfree)
    · rw [← hnaming.aliases, hnone]
    · rw [← hnaming.aliases]

end Store

/-! ## What an operation may do to the names -/

namespace Operation

open Store

variable {s t : Store}

/-- What a successful operation may do to the names of a store: it enters none, or one declaration,
or one keyword. -/
inductive Registers (s t : Store) : Operation → Prop
  | none {operation : Operation} (hother : ∀ keyword type, operation ≠ .addAlias keyword type)
      (tables : s.SameTables t) (aliases : t.aliases = s.aliases) : Registers s t operation
  | declaration {d : Declaration} {order : ScanOrder} {met : Store}
      (declares : s.Declares d met t) : Registers s t (.declare d order)
  | keyword {keyword : String} {type : TypeId} (tables : s.SameTables t)
      (new : s.aliases[keyword]? = Option.none)
      (aliases : t.aliases = s.aliases.insert keyword type) : Registers s t (.addAlias keyword type)

/-- Every operation takes one of these courses, or fails and enters no name. -/
theorem perform_registers (hs : s.Coherent) (operation : Operation) :
    operation.perform.Ends s (fun _ t => operation.Registers s t)
      fun t => s.SameTables t ∧ t.aliases = s.aliases := by
  have hunchanged : ∀ t, s.UnchangedButNames t → s.SameTables t ∧ t.aliases = s.aliases :=
    fun t ht => ⟨.of_unchangedButNames ht, ht.sameNaming.aliases⟩
  have hbuilds : ∀ {α : Type} {build : Build α}, OnlyBuilds (fun _ => False) build →
      build.Ends s (fun _ t => s.SameTables t ∧ t.aliases = s.aliases)
        fun t => s.SameTables t ∧ t.aliases = s.aliases := fun h =>
    (h s hs).mono (fun _ _ ht => ⟨.of_sameNaming ht.2, ht.2.aliases⟩)
      fun _ ht => ⟨.of_sameNaming ht.2, ht.2.aliases⟩
  cases operation with
  | declare d order =>
    refine Ends.bind ((declare_declares hs d).mono ?_ hunchanged)
    rintro - t ⟨met, ht⟩
    exact ends_pure (.declaration ht)
  | instantiate definition args =>
    exact Ends.bind ((hbuilds (.instantiate definition args)).mono
      (fun _ _ ht => ends_pure (.none nofun ht.1 ht.2)) fun _ => id)
  | nullableForm type =>
    exact Ends.bind ((hbuilds (.nullableForm type)).mono
      (fun _ _ ht => ends_pure (.none nofun ht.1 ht.2)) fun _ => id)
  | freeParameter name =>
    exact Ends.bind ((freeParameter_sameTables s name).mono
      (fun _ _ ht => ends_pure (.none nofun ht.1 ht.2)) fun _ => False.elim)
  | resolve expr =>
    exact Ends.bind ((hbuilds (.resolveIn expr)).mono
      (fun _ _ ht => ends_pure (.none nofun ht.1 ht.2)) fun _ => id)
  | readType text =>
    exact Ends.bind ((hbuilds (.readTypeIn text)).mono
      (fun _ _ ht => ends_pure (.none nofun ht.1 ht.2)) fun _ => id)
  | readPattern text vars =>
    exact Ends.bind ((readPattern_sameTables hs text vars).mono
      (fun _ _ ht => ends_pure (.none nofun ht.1 ht.2)) fun _ => id)
  | addAlias keyword type =>
    exact (addAlias_sameTables s keyword type).mono
      (fun _ _ ht => .keyword ht.1 ht.2.1 ht.2.2) hunchanged
  | giveRole role type =>
    refine Ends.bind (ends_descriptor (fun e _ => ?_) (hunchanged s (.refl s)))
    split
    · exact ends_modify (.none nofun ⟨rfl, rfl, fun _ _ => .inl⟩ rfl)
    · exact refuse_ends (hunchanged s (.refl s))
  | meet name =>
    exact meet_ends s [name] fun t ht => .none nofun (hunchanged t ht).1 (hunchanged t ht).2

theorem Registers.registered {operation : Operation} (h : operation.Registers s t)
    (hs : s.Registered) (hcoherent : s.Coherent) (hleaves : operation.Leaves s t) :
    t.Registered := by
  have ht := hleaves.coherent.wellFormed.names
  cases h with
  | none _ tables => exact tables.registered hs hcoherent.wellFormed ht hleaves.keepsOutlines
  | declaration declares => exact declares.registered hs hcoherent ht
  | keyword tables => exact tables.registered hs hcoherent.wellFormed ht hleaves.keepsOutlines

/-- So every operation leaves tables that agree with the descriptors. -/
theorem registered_after (hs : s.Registered) (hcoherent : s.Coherent) (operation : Operation) :
    (operation.perform.after s).Registered :=
  ((operation.perform_registers hcoherent).and (operation.perform_ends hcoherent)).store
    (fun _ _ ht => ht.1.registered hs hcoherent ht.2)
    fun _ ht => ht.1.1.registered hs hcoherent.wellFormed ht.2.coherent.wellFormed.names
      ht.2.keepsOutlines

end Operation

namespace Store

variable {s : Store}

theorem registered_empty : empty.Registered := by
  have hnone : ∀ type, empty.get? type = none := fun type => by
    rw [get?, empty]
    exact Array.getElem?_empty
  constructor
  · intro name arity
    rw [declaredAs, show empty.size = 0 from rfl, empty]
    simp
  · intro name arity type hqualified
    unfold empty at hqualified
    simp at hqualified
  · intro definition params ho
    rw [origin?, hnone] at ho
    cases ho
  · intro name type hfree
    unfold empty at hfree
    simp at hfree

/-- In a reachable store the tables of names agree with the descriptors. -/
theorem Reachable.registered (hs : s.Reachable) : s.Registered := by
  obtain ⟨operations, rfl⟩ := hs.exists_run
  suffices h : ∀ {s : Store}, s.Coherent → s.Registered → (s.afterAll operations).Registered from
    h coherent_empty registered_empty
  clear hs
  induction operations with
  | nil => exact fun _ hs => hs
  | cons operation operations ih =>
    exact fun hcoherent hs => ih (operation.leaves_after hcoherent).coherent
      (operation.registered_after hs hcoherent)

end Store

end NominalTypes
