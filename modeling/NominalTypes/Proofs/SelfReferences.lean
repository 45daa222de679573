import NominalTypes.Proofs.DeclaredNames

/-!
# Self-references

While the supertypes of a declaration are read, its simple name stands for the declared type, but
like any other simple name it comes last: if a keyword or an older type without namespace has this
name, an interface in which it is an argument is about that one. So a self-reference of a type in a
namespace is a reference to itself only as long as the name is free otherwise.

- `Store.ownName`: what the simple name of a declaration denotes in it.
- `Store.Introduces.eq_ownName_of_lookup`: the declared type is found like that.
- `Store.Reachable.interface_ownName`: the main result.
-/

namespace NominalTypes

namespace Store

variable {s t met : Store} {d : Declaration} {order : ScanOrder} {type target : TypeId}
  {text generic name : String} {base : Option TypeId} {interfaces : List TypeId}

/-- What the simple name of a declaration without parameters denotes while its supertypes are read:
a keyword, an older type with this qualified name, or the type that is being declared. -/
def ownName (s : Store) (d : Declaration) : TypeId :=
  (s.aliases[d.name]?).getD ((s.declaredAs .full d.name 0).headD s.size)

/-- The name is its own unless it has been taken. -/
theorem ownName_eq_size_iff (hs : s.Closed) : s.ownName d = s.size ↔
    s.aliases[d.name]? = none ∧ s.declaredAs .full d.name 0 = [] := by
  unfold ownName
  cases halias : s.aliases[d.name]? with
  | some keyword =>
    have hlt := hs.aliases d.name keyword halias
    exact iff_of_false (Nat.ne_of_lt hlt) fun h => nomatch h.1
  | none =>
    cases holder : s.declaredAs .full d.name 0 with
    | nil => exact iff_of_true rfl ⟨rfl, rfl⟩
    | cons older rest =>
      obtain ⟨e, he, -⟩ := mem_declaredAs.mp (holder ▸ List.mem_cons_self : older ∈ _)
      exact iff_of_false (Nat.ne_of_lt (lt_of_get? he)) fun h => nomatch h.2

/-! ## Names in a declaration -/

/-- A name with arguments denotes in a declaration without parameters what it denoted before. -/
theorem Declares.lookup_enter_iff (h : s.Declares d met t) (hplain : d.parameters = []) {arity : Nat}
    (harity : arity ≠ 0) :
    (met.enter d).lookup name arity = .ok type ↔ s.lookup name arity = .ok type := by
  have hkey : ∀ own : String, ¬ (name, arity) = (own, d.parameters.length) := fun own heq => by
    rw [hplain] at heq
    exact harity (Prod.mk.inj heq).2
  have hnaming := h.unchanged.sameNaming
  refine lookup_eq_ok_iff ?_ ?_ ?_
  · rw [aliased?, aliased?, if_neg harity, if_neg harity]
  · rw [qualifiedNames_enter, if_neg (hkey _), hnaming.qualifiedNames]
  · rw [simpleNames_enter, if_neg (hkey _), hnaming.simpleNames]

/-- The simple name of the declaration denotes what it should. -/
theorem Introduces.eq_ownName_of_lookup (h : s.Introduces d met t base interfaces)
    (hplain : d.parameters = []) (hs : s.Coherent) (ht : t.Registered) (hwf : t.WellFormed)
    (hlookup : t.lookup d.name 0 = .ok target) : target = s.ownName d := by
  have haliased : t.aliased? d.name 0 = s.aliases[d.name]? := by
    show t.aliases[d.name]? = _
    rw [h.naming.aliases]
    show met.aliases[d.name]? = _
    rw [h.unchanged.sameNaming.aliases]
  have hfull := h.declaredAs_full hs hwf.names d.name 0
  unfold ownName
  cases hnone : s.aliases[d.name]? with
  | some keyword =>
    rw [lookup, haliased, hnone] at hlookup
    exact (Except.ok.inj hlookup).symm
  | none =>
    rw [Option.getD_none]
    rcases lookup_of_aliased?_eq_none ht hwf (haliased.trans hnone) with
      ⟨found, hmem, hfound⟩ | ⟨hnil, hsimple⟩
    · rw [hfound] at hlookup
      cases hlookup
      cases holder : s.declaredAs .full d.name 0 with
      | cons older rest =>
        refine hwf.names.eq_of_mem hmem ?_
        rw [hfull, holder]
        exact List.mem_cons_self
      | nil =>
        rw [hfull, holder, List.nil_append] at hmem
        split at hmem
        · exact List.mem_singleton.mp hmem
        · cases hmem
    · rw [hfull, List.append_eq_nil_iff] at hnil
      rw [hnil.1, List.headD_nil]
      -- the declared type has this name, so there is no other one
      have hown : s.size ∈ t.declaredAs .short d.name 0 := by
        refine mem_declaredAs.mpr ⟨_, h.unchanged.size_eq ▸ h.own, ?_, rfl, ?_⟩
        · exact met.isDeclared_entered d
        · exact (met.arity_entered d).trans (by rw [hplain, List.length_nil])
      rw [hsimple, if_neg (List.ne_nil_of_mem hown), unambiguous_eq_ok_iff] at hlookup
      rw [hlookup] at hown
      exact (List.mem_singleton.mp hown).symm

/-! ## Reading self-references -/

/-- A name applied to another one denotes the application of what the two names denote. -/
theorem Yields.of_applied {expr : TypeExpr} {tree : TypeTree} (h : s.Yields [] expr tree)
    (hexpr : expr = .named generic [.named name []]) : ∃ definition target,
      s.lookup generic 1 = .ok definition ∧ s.lookup name 0 = .ok target ∧
        tree = .node definition [s.tree target] := by
  subst hexpr
  cases h with
  | @applied _ _ _ definition _ hlookup hargs =>
  cases hargs with
  | cons harg hrest =>
  cases hrest
  cases harg with
  | inScope hscope => cases hscope
  | @found _ target _ htarget => exact ⟨definition, target, hlookup, htarget, rfl⟩

/-- An interface of a declaration with the simple name of this declaration as its only argument is
built from the definition that the interface names and from what that simple name denotes: a
keyword, or else an older type with this qualified name, or else the declared type itself. So it is
about the declared type exactly if neither of the others is there. -/
theorem Reachable.interface_ownName (hs : s.Reachable) (hplain : d.parameters = [])
    (hrun : declare d order s = (.ok type, t)) (htext : text ∈ d.interfaces)
    (hparse : TypeExpr.parse text = .ok (.named generic [.named d.name []])) :
    (∃ e definition interface, t.get? type = some e ∧ interface ∈ e.interfaces ∧
      s.lookup generic 1 = .ok definition ∧ t.BuiltFrom interface definition [s.ownName d]) ∧
    (s.ownName d = type ↔ s.aliases[d.name]? = none ∧ s.declaredAs .full d.name 0 = []) := by
  have ht := hs.of_declare hrun
  obtain ⟨rfl, met, base, interfaces, h⟩ := declare_introduces hs.coherent hrun
  refine ⟨?_, ownName_eq_size_iff hs.coherent.wellFormed.closed⟩
  obtain ⟨interface, e, he, hinterface, hread⟩ := h.exists_interface htext
  obtain ⟨expr, hexpr, hknown, hyields⟩ := h.yields hs.coherent hread
  rw [hparse] at hexpr
  cases hexpr
  rw [scopeOf, hplain, List.zip_nil_left] at hyields
  obtain ⟨definition, target, hdefinition, htarget, htree⟩ := hyields.of_applied rfl
  have hown : t.lookup d.name 0 = .ok target := (lookup_eq_ok_iff (by
    rw [aliased?, aliased?, h.naming.aliases]) (by rw [h.naming.qualifiedNames])
    (by rw [h.naming.simpleNames])).mpr htarget
  obtain rfl := h.eq_ownName_of_lookup hplain hs.coherent ht.registered ht.coherent.wellFormed hown
  refine ⟨e, definition, interface, h.unchanged.size_eq ▸ he, hinterface,
    (h.lookup_enter_iff hplain Nat.one_ne_zero).mp hdefinition,
    ht.coherent.wellFormed.builtFrom_of_tree_eq hknown ?_⟩
  obtain ⟨hkind, -⟩ := kind_of_fault?_eq_none h.fault
  have hwf := ((hs.coherent.unchangedButNames h.unchanged).enter hkind h.new).wellFormed
  rw [htree, List.map_singleton, h.outlines.tree_eq hwf (lookup_lt hwf.closed htarget)]

/-- An interface to compare with other values. -/
def comparing : Declaration := { Declaration.plain .interface "Eq" with parameters := ["T"] }

/-- A class in a namespace that can be compared with what it calls by its own name. -/
def comparable : Declaration :=
  { Declaration.plain .classType "N" with qualifier := some "App", interfaces := ["Eq<N>"] }

theorem parse_comparable :
    TypeExpr.parse "Eq<N>" = .ok (.named "Eq" [.named comparable.name []]) := by
  refine TypeExpr.parse_eq_ok_iff.mpr ⟨?_,
    TypeExpr.spells_render (.named "Eq" [.named comparable.name []])⟩
  refine TypeExpr.fitsAt_named_iff.mpr ⟨by decide, by decide, List.forall_mem_singleton.mpr ?_⟩
  exact TypeExpr.fitsAt_named_iff.mpr ⟨by decide, by decide, fun _ harg => nomatch harg⟩

theorem interface_comparable :
    declare comparable .oldestFirst (Store.empty.afterAll [.declare comparing]) =
      (.ok 2, Store.empty.afterAll [.declare comparing, .declare comparable]) ∧
    ∃ e definition interface,
      (Store.empty.afterAll [.declare comparing, .declare comparable]).get? 2 = some e ∧
      interface ∈ e.interfaces ∧
      (Store.empty.afterAll [.declare comparing]).lookup "Eq" 1 = .ok definition ∧
      (Store.empty.afterAll [.declare comparing, .declare comparable]).BuiltFrom interface
        definition [2] := by
  have hrun : declare comparable .oldestFirst (Store.empty.afterAll [.declare comparing]) =
      (.ok 2, Store.empty.afterAll [.declare comparing, .declare comparable]) :=
    Prod.ext (by decide +kernel) (Build.after_dropped _ _).symm
  obtain ⟨⟨e, definition, interface, he, hinterface, hdefinition, hbuilt⟩, hown⟩ :=
    (Reachable.empty.afterAll [.declare comparing]).interface_ownName rfl hrun
      List.mem_cons_self parse_comparable
  rw [hown.mpr ⟨by decide +kernel, by decide +kernel⟩] at hbuilt
  exact ⟨hrun, e, definition, interface, he, hinterface, hdefinition, hbuilt⟩

/-- A store in which another class is called `N` too and has no namespace. -/
def mistaken : Store :=
  Store.empty.afterAll [.declare comparing, .declare (.plain .classType "N"), .declare comparable]

/-- That class is the one that is meant. -/
theorem not_interface_comparable : ¬ ∀ (s t : Store) (d : Declaration) (type definition : TypeId)
    (text generic : String), s.Reachable → d.parameters = [] →
    declare d .oldestFirst s = (.ok type, t) → text ∈ d.interfaces → TypeExpr.parse text = .ok (.named generic [.named d.name []]) →
    s.lookup generic 1 = .ok definition →
    ∃ e interface, t.get? type = some e ∧ interface ∈ e.interfaces ∧
      t.BuiltFrom interface definition [type] := by
  intro h
  obtain ⟨e, interface, he, hinterface, hbuilt⟩ :=
    h (Store.empty.afterAll [.declare comparing, .declare (.plain .classType "N")]) mistaken
      comparable 3 0 "Eq<N>" "Eq" (Reachable.empty.afterAll _) rfl
      (Prod.ext (by decide +kernel) (Build.after_dropped _ _).symm) List.mem_cons_self
      parse_comparable (by decide +kernel)
  have hinterfaces : (mistaken.get? 3).map Descriptor.interfaces = some [4] := by decide +kernel
  have horigin : mistaken.origin? 4 = some (.instantiation 0 [2] false) := by decide +kernel
  rw [he, Option.map_some, Option.some.injEq] at hinterfaces
  rw [hinterfaces, List.mem_singleton] at hinterface
  subst hinterface
  obtain ⟨-, ho⟩ | ⟨_, ho⟩ := builtFrom_iff.mp hbuilt
  all_goals rw [horigin] at ho; cases ho

end Store

end NominalTypes
