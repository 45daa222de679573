import NominalTypes.Proofs.RoundTrip

/-!
# Declarations that are accepted

A declaration without parameters and base type succeeds if its name can be read and is new, and its
interfaces are given by names of known interfaces. The store then has one more type, with these
interfaces. There is no bound to this: any number of interfaces can be declared one after the other,
and a type may have all of them.

- `Store.NamesInterface`: a text by which an interface is found.
- `Store.declare_eq_ok`: the declaration and what it leaves.
- `Store.HoldsInterfaces`, `Store.HoldsInterfaces.afterAll`: a store of interfaces.
- `Store.HoldsInterfaces.declare`: a type that has them all.
-/

namespace NominalTypes

open Build (bind_of_ok)

/-! ## Names of declarations -/

theorem isNameChar_of_isDigit {c : Char} (h : c.isDigit = true) : isNameChar c = true := by
  obtain ⟨hlow, hhigh⟩ : 48 ≤ c.toNat ∧ c.toNat ≤ 57 := by
    simpa [Char.isDigit, UInt32.le_iff_toNat_le] using h
  have hdigits : ∃ rest, Text.alphanumericRanges = (48, 57) :: rest := ⟨_, rfl⟩
  obtain ⟨rest, hranges⟩ := hdigits
  have halpha : Text.isAlphanumeric c = true := by
    rw [Text.isAlphanumeric, hranges, Text.inRanges, if_neg (Nat.not_lt.mpr hlow), if_pos hhigh]
  rw [isNameChar, halpha]
  rfl

/-- Without dots, a name needs name characters only, the first of which is not a digit. -/
theorem IsTypeName.of_not_mem_dot {name : String} (hne : name.toList ≠ [])
    (hchars : ∀ c ∈ name.toList, isNameChar c = true) (hdot : '.' ∉ name.toList)
    (hdigit : ∀ c, name.toList.head? = some c → c.isDigit = false) : IsTypeName name where
  ne_nil := hne
  chars := hchars
  head_ne hhead := hdot (List.mem_of_head? hhead)
  last_ne hlast := hdot (List.mem_of_getLast? hlast)
  not_doubled hdoubled := hdot (hdoubled.subset List.mem_cons_self)
  not_digit := hdigit

theorem Declaration.fault?_eq_none {d : Declaration} (hname : IsTypeName d.name)
    (hsimple : '.' ∉ d.name.toList) (hkind : d.kind ≠ .parameter) (hstatic : d.isStatic = false)
    (hbase : d.base = none) (hparameters : d.parameters = []) : d.fault? = none := by
  have hword : d.hasSimpleName = true := by
    rw [hasSimpleName, TypeExpr.parse_name hname]
    simpa using hsimple
  simp [fault?, hword, hkind, hstatic, hbase, hparameters]

namespace Store

variable {s t : Store} {d : Declaration} {name text : String} {names texts : List String}
  {order : ScanOrder}
  {type interface : TypeId} {interfaces : List TypeId}

/-! ## Running a declaration -/

/-- An operation that gives its answers without changing the store may be done for every entry of a
list. -/
theorem mapM_eq_ok {α β : Type} {f : α → Build β} {as : List α} {bs : List β}
    (h : List.Forall₂ (fun a b => f a s = (.ok b, s)) as bs) : as.mapM f s = (.ok bs, s) := by
  induction h with
  | nil => rfl
  | cons hhead _ ih =>
    rw [List.mapM_cons, bind_of_ok hhead, bind_of_ok ih]
    rfl

theorem get?_enter_of_lt (h : type < s.size) : (s.enter d).get? type = s.get? type := by
  have hlt : type < s.types.toList.length := by rwa [Array.length_toList]
  rw [get?, ← Array.getElem?_toList, types_enter, List.getElem?_append_left hlt,
    Array.getElem?_toList, get?]

/-- The text is the name of an interface, and not a keyword. -/
structure NamesInterface (s : Store) (text : String) (interface : TypeId) : Prop where
  isTypeName : IsTypeName text
  not_keyword : s.aliases[text]? = none
  qualifiedName : s.qualifiedNames[(text, 0)]? = some interface
  isInterface : s.isInterface interface = true

/-- It is found by any declaration that lists it. -/
theorem NamesInterface.declaredInterface_eq_ok (h : s.NamesInterface text interface)
    (type : TypeId) : declaredInterface type [] text s = (.ok interface, s) := by
  obtain ⟨described, hget, hkind⟩ := (Option.any_eq_true _ _).mp h.isInterface
  have hlookup : s.lookup text 0 = .ok interface := by
    have halias : s.aliased? text 0 = none := h.not_keyword
    rw [lookup, halias, h.qualifiedName]
  have hread : readTypeIn [] text s = (.ok interface, s) := by
    rw [readTypeIn, readExpr, TypeExpr.parse_name h.isTypeName]
    exact resolveIn_name hlookup
  have hask : Build.ask (·.descriptor interface) s = (.ok described, s) := by
    rw [Build.ask, Build.get_bind, descriptor_eq_ok.mpr hget]
    rfl
  rw [declaredInterface, bind_of_ok hread, bind_of_ok hask, if_pos hkind]
  rfl

/-- Entering another name does not hide the text. -/
theorem NamesInterface.enter (h : s.NamesInterface text interface) (hne : text ≠ d.qualifiedName) :
    (s.enter d).NamesInterface text interface := by
  obtain ⟨described, hget, -⟩ := (Option.any_eq_true _ _).mp h.isInterface
  refine ⟨h.isTypeName, h.not_keyword, ?_, ?_⟩
  · rw [qualifiedNames_enter, if_neg fun heq => hne (congrArg Prod.fst heq)]
    exact h.qualifiedName
  · rw [Store.isInterface, get?_enter_of_lt (lt_of_get? hget)]
    exact h.isInterface

theorem NamesInterface.unchangedButNames (h : s.NamesInterface text interface)
    (hst : s.UnchangedButNames t) : t.NamesInterface text interface := by
  rw [hst.eq]
  exact ⟨h.isTypeName, h.not_keyword, h.qualifiedName, h.isInterface⟩

/-- The youngest type has no instantiations of its own. -/
theorem instantiationsOf_eq_nil {e : Descriptor} (hlast : s.size = type + 1)
    (he : s.get? type = some e) (hnot : e.origin.isInstantiation = false) :
    s.instantiationsOf type = [] := by
  rw [instantiationsOf, hlast, Nat.add_sub_cancel_left, List.range'_one, List.filter_eq_nil_iff]
  intro other hother
  rw [List.mem_singleton.mp hother, he, Option.map_some]
  cases horigin : e.origin with
  | instantiation generic args isOpen =>
    rw [horigin] at hnot
    cases hnot
  | declared | definition _ | typeParameter _ _ | methodParameter => exact Bool.false_ne_true

theorem exists_meet (s : Store) (names : List String) :
    ∃ t, s.UnchangedButNames t ∧ Build.meet names s = (.ok (), t) :=
  ⟨_, s.unchangedButNames_addAll names, rfl⟩

section Run

variable (hparameters : d.parameters = []) (hbase : d.base = none)

include hparameters hbase

/-- The supertypes of an entered type without parameters and base type are the interfaces that are
found, and nothing is built. -/
theorem resolveSupertypes_eq_ok (order : ScanOrder)
    (hinterfaces : List.Forall₂ (s.enter d).NamesInterface d.interfaces interfaces) :
    resolveSupertypes order s.size d (s.enter d) = (.ok (), (s.enter d).setSupertypes s.size
      ((s.enter d).impliedBase s.size d.kind) interfaces.eraseDups) := by
  have hdeclaredBase : declaredBase s.size [] d (s.enter d) =
      (.ok ((s.enter d).impliedBase s.size d.kind), s.enter d) := by
    rw [declaredBase, hbase]
    rfl
  have hall := mapM_eq_ok (hinterfaces.imp fun _ _ h => h.declaredInterface_eq_ok s.size)
  generalize (s.enter d).impliedBase s.size d.kind = base at hdeclaredBase ⊢
  have hget : ((s.enter d).setSupertypes s.size base interfaces.eraseDups).get? s.size =
      some { s.entered d with base := base, interfaces := interfaces.eraseDups } := by
    rw [get?_setSupertypes, if_pos rfl, get?_enter_own, Option.map_some]
  have hnone : ((s.enter d).setSupertypes s.size base interfaces.eraseDups).instantiationsOf
      s.size = [] := by
    refine instantiationsOf_eq_nil ?_ hget (s.isInstantiation_entered d)
    rw [size_setSupertypes, size_enter, hparameters, List.length_nil]
  unfold resolveSupertypes
  rw [hparameters, List.zip_nil_left, bind_of_ok hdeclaredBase, bind_of_ok hall,
    Build.modify_bind, Build.get_bind, hnone, ScanOrder.arrange_nil]
  rfl

theorem introduce_eq_ok (order : ScanOrder)
    (hinterfaces : List.Forall₂ (fun text interface =>
      s.NamesInterface text interface ∧ text ≠ d.qualifiedName) d.interfaces interfaces) :
    introduce order d s = (.ok s.size, (s.enter d).setSupertypes s.size
      ((s.enter d).impliedBase s.size d.kind) interfaces.eraseDups) := by
  have hrun := resolveSupertypes_eq_ok hparameters hbase order
    (hinterfaces.imp fun _ _ h => h.1.enter h.2)
  refine Build.atomic_eq_ok.mpr ?_
  rw [Build.get_bind, Build.set_bind, bind_of_ok hrun]
  rfl

/-- A declaration without parameters and base type succeeds if its name is new and its interfaces
are found. It adds one type, which has these interfaces. -/
theorem declare_eq_ok (hfault : d.fault? = none)
    (hnew : s.qualifiedNames[(d.qualifiedName, 0)]? = none)
    (hinterfaces : List.Forall₂ (fun text interface =>
      s.NamesInterface text interface ∧ text ≠ d.qualifiedName) d.interfaces interfaces) :
    ∃ t, s.UnchangedButNames t ∧ declare d order s = (.ok s.size,
      (t.enter d).setSupertypes s.size ((t.enter d).impliedBase s.size d.kind)
        interfaces.eraseDups) := by
  obtain ⟨t, hst, hmeet⟩ := s.exists_meet [d.name, d.qualifiedName]
  obtain ⟨u, htu, hmeet'⟩ := t.exists_meet (d.effectiveQualifier.toList ++ d.parameters)
  have hsu := hst.trans htu
  have hintroduce := introduce_eq_ok hparameters hbase order (hinterfaces.imp fun _ _ h =>
    ⟨h.1.unchangedButNames hsu, h.2⟩)
  rw [hsu.size_eq] at hintroduce
  have hfree : ¬ t.qualifiedNames.contains (d.qualifiedName, d.parameters.length) = true := by
    rw [hparameters, hst.eq]
    simp [Std.ExtTreeMap.contains_eq_isSome_getElem?, hnew]
  refine ⟨u, hsu, ?_⟩
  unfold declare
  rw [hfault]
  dsimp only
  rw [bind_of_ok hmeet, Build.get_bind, if_neg hfree, bind_of_ok hmeet', hintroduce]

end Run

/-! ## Stores of interfaces -/

/-- The store holds one interface for each name, in this order, and nothing else. No name is a
keyword. -/
structure HoldsInterfaces (s : Store) (names : List String) : Prop where
  size : s.size = names.length
  aliases : s.aliases = ∅
  qualifiedNames : ∀ name (i : TypeId), s.qualifiedNames[(name, 0)]? = some i ↔ names[i]? = some name
  isInterface : ∀ i < s.size, s.isInterface i = true

theorem getElem?_concat_eq_some_iff {other : String} {i : Nat} :
    (names ++ [name])[i]? = some other ↔
      names[i]? = some other ∨ i = names.length ∧ name = other := by
  rcases Nat.lt_trichotomy i names.length with hlt | rfl | hgt
  · rw [List.getElem?_append_left hlt, or_iff_left fun heq => Nat.ne_of_lt hlt heq.1]
  · rw [List.getElem?_concat_length, List.getElem?_eq_none (Nat.le_refl _)]
    simp
  · rw [List.getElem?_eq_none (by rw [List.length_append]; exact hgt),
      List.getElem?_eq_none (Nat.le_of_lt hgt), or_iff_right (nomatch ·)]
    exact iff_of_false (nomatch ·) fun heq => Nat.ne_of_gt hgt heq.1

namespace HoldsInterfaces

theorem empty : Store.empty.HoldsInterfaces [] where
  size := rfl
  aliases := rfl
  qualifiedNames name i := by
    unfold Store.empty
    simp
  isInterface i hi := absurd hi (Nat.not_lt_zero i)

theorem eq_none (h : s.HoldsInterfaces names) (hnew : name ∉ names) :
    s.qualifiedNames[(name, 0)]? = none :=
  Option.eq_none_iff_forall_ne_some.mpr fun i hi =>
    hnew (List.mem_of_getElem? ((h.qualifiedNames name i).mp hi))

/-- All of them are found by their names, beside any other name. -/
theorem namesInterface (h : s.HoldsInterfaces names) (hnames : ∀ name ∈ names, IsTypeName name)
    (hnew : name ∉ names) : List.Forall₂ (fun text interface =>
      s.NamesInterface text interface ∧ text ≠ name) names (List.range names.length) := by
  refine List.forall₂_iff_get.mpr ⟨List.length_range.symm, fun i hi _ => ?_⟩
  have hmem := List.get_mem names ⟨i, hi⟩
  rw [List.get_eq_getElem, List.get_eq_getElem, List.getElem_range]
  refine ⟨⟨hnames _ hmem, ?_, ?_, h.isInterface i (h.size ▸ hi)⟩, fun heq => hnew (heq ▸ hmem)⟩
  · rw [h.aliases]
    exact Std.ExtTreeMap.getElem?_empty
  · exact (h.qualifiedNames _ i).mpr (List.getElem?_eq_getElem hi)

theorem unchangedButNames (h : s.HoldsInterfaces names) (hst : s.UnchangedButNames t) :
    t.HoldsInterfaces names := by
  rw [hst.eq]
  exact ⟨h.size, h.aliases, h.qualifiedNames, h.isInterface⟩

theorem qualifiedNames_enter (h : s.HoldsInterfaces names) (hnew : name ∉ names) (other : String)
    (i : TypeId) : (s.enter (.plain .interface name)).qualifiedNames[(other, 0)]? = some i ↔
      (names ++ [name])[i]? = some other := by
  have henter : (s.enter (.plain .interface name)).qualifiedNames[(other, 0)]? =
      if (other, 0) = (name, 0) then some s.size else s.qualifiedNames[(other, 0)]? :=
    Store.qualifiedNames_enter _
  rw [henter, h.size, getElem?_concat_eq_some_iff]
  by_cases hother : other = name
  · subst hother
    have hnone : ¬ names[i]? = some other := fun hi => hnew (List.mem_of_getElem? hi)
    rw [if_pos rfl, Option.some_inj, or_iff_right hnone, and_iff_left rfl, eq_comm]
  · have hne : ¬ (i = names.length ∧ name = other) := fun hi => hother hi.2.symm
    rw [if_neg fun heq => hother (congrArg Prod.fst heq), h.qualifiedNames, or_iff_left hne]

/-- One more interface can be declared. -/
theorem declare (h : s.HoldsInterfaces names) (hname : IsTypeName name)
    (hsimple : '.' ∉ name.toList) (hnew : name ∉ names) :
    ((Operation.declare (.plain .interface name) order).perform.after s).HoldsInterfaces
      (names ++ [name]) := by
  obtain ⟨t, hst, hrun⟩ := declare_eq_ok (d := .plain .interface name) rfl rfl
    (Declaration.fault?_eq_none hname hsimple nofun rfl rfl rfl) (h.eq_none hnew) .nil
  have ht := h.unchangedButNames hst
  rw [Operation.perform, Build.after_dropped, Build.after, ExceptT.run, hrun, ← hst.size_eq]
  have hsize : (t.enter (.plain .interface name)).size = t.size + 1 := size_enter t _
  constructor
  · rw [size_setSupertypes, hsize, ht.size, List.length_append]
    rfl
  · exact ht.aliases
  · exact ht.qualifiedNames_enter hnew
  · intro i hi
    rw [size_setSupertypes, hsize] at hi
    rw [Store.isInterface, get?_setSupertypes]
    rcases Nat.lt_succ_iff_lt_or_eq.mp hi with hlt | rfl
    · rw [if_neg (Nat.ne_of_gt hlt), get?_enter_of_lt hlt]
      exact ht.isInterface i hlt
    · rw [if_pos rfl, get?_enter_own]
      rfl

/-- So can any number of interfaces, one after the other. -/
theorem afterAll (hnames : ∀ name ∈ names, IsTypeName name ∧ '.' ∉ name.toList)
    (hnodup : names.Nodup) : (Store.empty.afterAll
      (names.map fun name => .declare (.plain .interface name))).HoldsInterfaces names := by
  induction names using List.reverseRecOn with
  | nil => exact .empty
  | append_singleton names name ih =>
    obtain ⟨hnames, hname⟩ := List.forall_mem_append.mp hnames
    obtain ⟨hname, hsimple⟩ := hname name List.mem_cons_self
    obtain ⟨hnodup, -, hne⟩ := List.nodup_append.mp hnodup
    rw [List.map_append, afterAll_append]
    exact (ih hnames hnodup).declare hname hsimple fun hmem =>
      hne name hmem name List.mem_cons_self rfl

/-- A type may have all of them. -/
theorem exists_get?_declare (h : s.HoldsInterfaces d.interfaces)
    (hnames : ∀ name ∈ d.interfaces, IsTypeName name) (hfault : d.fault? = none)
    (hparameters : d.parameters = []) (hbase : d.base = none)
    (hnew : d.qualifiedName ∉ d.interfaces) :
    ∃ e, ((Operation.declare d order).perform.after s).get? s.size = some e ∧
      ∀ i < s.size, i ∈ e.interfaces := by
  obtain ⟨t, hst, hrun⟩ := declare_eq_ok hparameters hbase hfault (h.eq_none hnew)
    (h.namesInterface hnames hnew)
  rw [Operation.perform, Build.after_dropped, Build.after, ExceptT.run, hrun, get?_setSupertypes,
    if_pos rfl, ← hst.size_eq, get?_enter_own]
  refine ⟨_, rfl, fun i hi => List.mem_eraseDups.mpr (List.mem_range.mpr ?_)⟩
  rwa [hst.size_eq, h.size] at hi

end HoldsInterfaces

end Store

end NominalTypes
