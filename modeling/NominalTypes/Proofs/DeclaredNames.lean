import NominalTypes.Proofs.Denotation
import NominalTypes.Proofs.NameLookup
import NominalTypes.Proofs.RoundTrip

/-!
# Declared types by their names

A declaration is refused if its simple name does not read as a name, but the name is kept as it is
written, with the blanks around it, and the namespace in front of it is not read at all. So a type
that has been declared can be read by its qualified name exactly if the simple name has no blanks
and the namespace is a type name too. Then reading it changes nothing.

- `IsTypeName.of_join`, `Declaration.isTypeName_qualifiedName_iff`: qualified names that can be read.
- `Store.Yields.of_leaf`: an expression that denotes a type without arguments is a name.
- `Store.Reachable.readType_declared`: the main result.
-/

namespace NominalTypes

/-! ## Names with namespaces -/

/-- What stands before a dot in a type name is a type name, if it is not empty. -/
theorem IsTypeName.of_join {first last : String} (h : IsTypeName (first ++ "." ++ last))
    (hne : first ≠ "") : IsTypeName first := by
  have hchars : (first ++ "." ++ last).toList = first.toList ++ '.' :: last.toList := by simp
  have hnil : first.toList ≠ [] := fun heq => hne (String.toList_eq_nil_iff.mp heq)
  have hhead : (first ++ "." ++ last).toList.head? = first.toList.head? := by
    rw [hchars, List.head?_append_of_ne_nil _ hnil]
  refine ⟨hnil, fun c hc => h.chars c ?_, hhead ▸ h.head_ne, fun hlast => h.not_doubled ?_,
    fun hdoubled => h.not_doubled ?_, hhead ▸ h.not_digit⟩
  · rw [hchars]
    exact List.mem_append_left _ hc
  · -- a dot at the end would be doubled by the one that follows
    obtain ⟨front, hfront⟩ := List.getLast?_eq_some_iff.mp hlast
    exact ⟨front, last.toList, by rw [hchars, hfront]; simp⟩
  · rw [hchars]
    exact hdoubled.trans (List.prefix_append _ _).isInfix

/-- The characters of a text that spells a word, and nothing else, are those of the word between
blanks. -/
theorem Spells.exists_of_word {text : List Char} {name : String} (h : Spells text [.word name]) :
    ∃ before after, text = before ++ (name.toList ++ after) ∧
      (∀ c ∈ before, Text.isBlank c = true) ∧ ∀ c ∈ after, Text.isBlank c = true := by
  cases h with
  | cons hbefore hrest =>
    cases hrest with
    | nil hafter => exact ⟨_, _, rfl, hbefore, hafter⟩

namespace Declaration

variable {d : Declaration}

/-- The simple name of a declaration without fault is a type name without dots, with blanks around
it. -/
theorem exists_word_of_hasSimpleName (h : d.hasSimpleName = true) :
    ∃ word, IsTypeName word ∧ '.' ∉ word.toList ∧ Spells d.name.toList [.word word] := by
  unfold hasSimpleName at h
  split at h
  · next word hparse =>
    obtain ⟨hfits, hspells⟩ := TypeExpr.parse_eq_ok_iff.mp hparse
    exact ⟨word, (TypeExpr.fitsAt_named_iff.mp hfits).1, by simpa using h, hspells⟩
  · cases h

theorem hasSimpleName_of_fault? (h : d.fault? = none) : d.hasSimpleName = true := by
  unfold fault? at h
  split_ifs at h with hword
  exact Bool.not_eq_false _ ▸ fun hfalse => hword (by rw [hfalse]; rfl)

theorem ne_empty_of_effectiveQualifier {qualifier : String}
    (h : d.effectiveQualifier = some qualifier) : qualifier ≠ "" :=
  bne_iff_ne.mp (Option.filter_eq_some_iff.mp h).2

/-- The qualified name of a declaration is a type name if no blanks are around the simple name and
the namespace is a type name. -/
theorem isTypeName_qualifiedName_iff (h : d.hasSimpleName = true) :
    IsTypeName d.qualifiedName ↔ (∀ c ∈ d.name.toList, Text.isBlank c = false) ∧
      ∀ qualifier, d.effectiveQualifier = some qualifier → IsTypeName qualifier := by
  obtain ⟨word, hword, -, hspells⟩ := d.exists_word_of_hasSimpleName h
  obtain ⟨before, after, hname, hbefore, hafter⟩ := hspells.exists_of_word
  constructor
  · intro hqualified
    have hsuffix : d.name.toList <:+ d.qualifiedName.toList := by
      unfold qualifiedName
      split
      · next qualifier _ => exact ⟨qualifier.toList ++ ['.'], by simp⟩
      · exact List.suffix_rfl
    refine ⟨fun c hc => Bool.eq_false_iff.mpr fun hblank => ?_, fun qualifier hqualifier => ?_⟩
    · have hchar := hqualified.chars c (hsuffix.subset hc)
      rw [isNameChar_of_isBlank hblank] at hchar
      cases hchar
    · rw [qualifiedName, hqualifier] at hqualified
      exact hqualified.of_join (ne_empty_of_effectiveQualifier hqualifier)
  · rintro ⟨hblank, hqualifier⟩
    -- there is nothing around the word
    have hnil : ∀ blanks : List Char, (∀ c ∈ blanks, Text.isBlank c = true) →
        blanks ⊆ d.name.toList → blanks = [] := fun blanks hblanks hsubset =>
      List.eq_nil_iff_forall_not_mem.mpr fun c hc => by
        have hnot := hblank c (hsubset hc)
        rw [hblanks c hc] at hnot
        cases hnot
    have heq : d.name = word := by
      refine String.toList_inj.mp ?_
      rw [hname, hnil before hbefore (by simp [hname]), hnil after hafter (by simp [hname]),
        List.append_nil, List.nil_append]
    unfold qualifiedName
    split
    · next qualifier hsome => exact (hqualifier qualifier hsome).join (heq ▸ hword)
    · exact heq ▸ hword

/-- If the simple name is what is read for the qualified name, no namespace is in front of it. -/
theorem qualifiedName_eq_of_spells (h : d.hasSimpleName = true) (hname : IsTypeName d.name)
    (hspells : Spells d.qualifiedName.toList [.word d.name]) : d.qualifiedName = d.name := by
  rw [hasSimpleName, TypeExpr.parse_name hname] at h
  have hdot : '.' ∉ d.name.toList := by simpa using h
  obtain ⟨before, after, hchars, hbefore, hafter⟩ := hspells.exists_of_word
  have hdot' : '.' ∉ d.qualifiedName.toList := by
    rw [hchars, List.mem_append, List.mem_append]
    rintro (hmem | hmem | hmem)
    · exact absurd (hbefore _ hmem) (by decide)
    · exact hdot hmem
    · exact absurd (hafter _ hmem) (by decide)
  unfold qualifiedName at hdot' ⊢
  split at hdot'
  · simp at hdot'
  · rfl

end Declaration

namespace Store

variable {s t : Store} {d : Declaration} {order : ScanOrder} {type : TypeId} {name : String}

/-- Only a name denotes a type without arguments, and the type is found by it. -/
theorem Yields.of_leaf {expr : TypeExpr} {tree : TypeTree} (h : s.Yields [] expr tree)
    (htree : tree = .leaf type) : ∃ name, expr = .named name [] ∧ s.lookup name 0 = .ok type := by
  cases h with
  | inScope hscope => cases hscope
  | @found name _ _ hlookup => exact ⟨name, rfl, eq_of_tree_eq_leaf htree ▸ hlookup⟩
  | applied | nullable => cases htree
  | blanks _ ho =>
    rw [tree_definition ho] at htree
    cases htree

/-- A name that is no keyword denotes a type that has been declared under it. -/
theorem exists_mem_declaredAs_of_lookup (hs : s.Registered) (hwf : s.WellFormed) {arity : Nat}
    (hnone : s.aliased? name arity = none) (hlookup : s.lookup name arity = .ok type) :
    ∃ style, type ∈ s.declaredAs style name arity := by
  rcases lookup_of_aliased?_eq_none hs hwf hnone with ⟨found, hmem, hfound⟩ | ⟨-, hsimple⟩
  · rw [hfound] at hlookup
    cases hlookup
    exact ⟨.full, hmem⟩
  · rw [hsimple] at hlookup
    split at hlookup
    · cases hlookup
    · refine ⟨.short, ?_⟩
      rw [unambiguous_eq_ok_iff.mp hlookup]
      exact List.mem_singleton_self type

/-! ## The declared type -/

section Declared

variable {base : Option TypeId} {interfaces : List TypeId} {met : Store}

/-- A declared type without parameters has no arguments either. -/
theorem Introduces.origin?_eq (h : s.Introduces d met t base interfaces) (hplain : d.parameters = []) :
    t.origin? met.size = some .declared := by
  rw [origin?_of_get? h.own]
  show some (if d.parameters.length = 0 then Origin.declared else _) = some .declared
  rw [hplain, List.length_nil, if_pos rfl]

/-- It is found by its qualified name unless this is a keyword. -/
theorem Introduces.lookup_qualifiedName (h : s.Introduces d met t base interfaces)
    (hplain : d.parameters = []) (halias : t.aliases[d.qualifiedName]? = none) :
    t.lookup d.qualifiedName 0 = .ok met.size := by
  have halias' : t.aliased? d.qualifiedName 0 = none := halias
  have hqualified : t.qualifiedNames[(d.qualifiedName, 0)]? = some met.size := by
    rw [h.naming.qualifiedNames, qualifiedNames_enter, hplain]
    exact if_pos rfl
  rw [lookup, halias', hqualified]

/-- Whatever name it is found by is its qualified or its simple one. -/
theorem Introduces.eq_of_lookup (h : s.Introduces d met t base interfaces) (hs : s.Coherent)
    (ht : t.Registered) (hwf : t.WellFormed) (hlookup : t.lookup name 0 = .ok met.size) :
    name = d.qualifiedName ∨ name = d.name := by
  have hnone : t.aliased? name 0 = none := by
    -- no keyword stands for a type that has just been entered
    refine Option.eq_none_iff_forall_ne_some.mpr fun keyword hkeyword => ?_
    have heq : keyword = met.size := by
      rw [lookup, hkeyword] at hlookup
      exact Except.ok.inj hlookup
    have haliases : met.aliases[name]? = some met.size := by
      rw [← heq, ← hkeyword]
      show _ = t.aliases[name]?
      rw [h.naming.aliases]
      rfl
    exact Nat.lt_irrefl _
      ((hs.unchangedButNames h.unchanged).wellFormed.closed.aliases name _ haliases)
  obtain ⟨style, hmem⟩ := exists_mem_declaredAs_of_lookup ht hwf hnone hlookup
  obtain ⟨e, he, -, hname, -⟩ := mem_declaredAs.mp hmem
  rw [h.own] at he
  cases he
  cases style with
  | short => exact .inr hname.symm
  | full => exact .inl hname.symm

end Declared

/-- A type name that is found is read, and nothing changes. -/
theorem readType_name (hname : IsTypeName name) (h : s.lookup name 0 = .ok type) :
    readType name s = (.ok type, s) := by
  have hexpr : readExpr name s = (.ok (.named name []), s) := by
    rw [readExpr, TypeExpr.parse_name hname]
    rfl
  rw [readType, readTypeIn, Build.bind_of_ok hexpr]
  exact resolveIn_name h

/-- A type without parameters whose qualified name reads as this type has a type name as its
qualified name. -/
theorem Introduces.isTypeName_of_readType {met u : Store} {base : Option TypeId}
    {interfaces : List TypeId} (h : s.Introduces d met t base interfaces) (hs : s.Coherent)
    (ht : t.Reachable) (hplain : d.parameters = [])
    (hread : readType d.qualifiedName t = (.ok met.size, u)) : IsTypeName d.qualifiedName := by
  obtain ⟨expr, hparse, hresolve⟩ := exists_of_readTypeIn hread
  have hscope : ∀ entry ∈ ([] : Scope), entry.2 < t.size := fun _ hentry => nomatch hentry
  obtain ⟨hu, htu, hreads⟩ := (resolveIn_yields ht.coherent.wellFormed hscope expr ht.coherent
    (.refl ht.coherent.wellFormed.closed)).of_ok hresolve
  have hleaf : u.tree met.size = .leaf met.size := tree_leaf (by
    rw [definitionOf?_eq_origin?,
      htu.grows.keepsOutlines.origin?_some (h.origin?_eq hplain)])
  obtain ⟨name, rfl, hlookup⟩ := hreads.2.of_leaf hleaf
  obtain ⟨hfits, hspells⟩ := TypeExpr.parse_eq_ok_iff.mp hparse
  have hname : IsTypeName name := (TypeExpr.fitsAt_named_iff.mp hfits).1
  rcases h.eq_of_lookup hs ht.registered ht.coherent.wellFormed hlookup with rfl | rfl
  · exact hname
  · exact Declaration.qualifiedName_eq_of_spells (Declaration.hasSimpleName_of_fault? h.fault) hname
      hspells ▸ hname

/-- All that a declaration demands of its names is that the simple one, without the blanks around
it, is a type name without dots. A declared type without parameters is read by its qualified name,
if this is not a keyword, exactly if no blanks are around its simple name and its namespace is a
type name too, and then the store is left as it is. -/
theorem Reachable.readType_declared (hs : s.Reachable) (hplain : d.parameters = [])
    (hrun : declare d order s = (.ok type, t)) (halias : t.aliases[d.qualifiedName]? = none) :
    (∃ word, IsTypeName word ∧ '.' ∉ word.toList ∧ Spells d.name.toList [.word word]) ∧
    ((readType d.qualifiedName t).1 = .ok type ↔ (∀ c ∈ d.name.toList, Text.isBlank c = false) ∧
      ∀ qualifier, d.effectiveQualifier = some qualifier → IsTypeName qualifier) ∧
    ((readType d.qualifiedName t).1 = .ok type → (readType d.qualifiedName t).2 = t) := by
  obtain ⟨rfl, met, base, interfaces, h⟩ := declare_introduces hs.coherent hrun
  have hsimple := Declaration.hasSimpleName_of_fault? h.fault
  have hlookup := h.lookup_qualifiedName hplain halias
  rw [h.unchanged.size_eq] at hlookup
  have hreads : IsTypeName d.qualifiedName → readType d.qualifiedName t = (.ok s.size, t) :=
    fun hname => readType_name hname hlookup
  have hname : (readType d.qualifiedName t).1 = .ok s.size → IsTypeName d.qualifiedName := by
    intro hok
    refine h.isTypeName_of_readType (u := (readType d.qualifiedName t).2) hs.coherent
      (hs.of_declare hrun) hplain ?_
    rw [h.unchanged.size_eq]
    exact Prod.ext hok rfl
  refine ⟨Declaration.exists_word_of_hasSimpleName hsimple, ?_, fun hok => ?_⟩
  · rw [← Declaration.isTypeName_qualifiedName_iff hsimple]
    exact ⟨hname, fun h => by rw [hreads h]⟩
  · rw [hreads (hname hok)]

/-- A class in a namespace. -/
def housed : Declaration := { Declaration.plain .classType "A" with qualifier := some "N" }

/-- A class with a blank in front of its name. -/
def spaced : Declaration := .plain .classType " A"

/-- A class in a namespace that does not read as a name. -/
def misplaced : Declaration := { Declaration.plain .classType "A" with qualifier := some "a b" }

theorem readType_housed : declare housed .oldestFirst .empty =
      (.ok 0, (declare housed .oldestFirst .empty).2) ∧
    readType "N.A" (declare housed .oldestFirst .empty).2 =
      (.ok 0, (declare housed .oldestFirst .empty).2) := by
  have hrun : declare housed .oldestFirst .empty =
      (.ok 0, (declare housed .oldestFirst .empty).2) := Prod.ext (by decide +kernel) rfl
  obtain ⟨-, hreads, hstays⟩ :=
    Reachable.empty.readType_declared (d := housed) rfl hrun (by decide +kernel)
  have hname : housed.name.toList.all (fun c => !Text.isBlank c) = true := by decide
  have hblank : ∀ c ∈ housed.name.toList, Text.isBlank c = false := fun c hc => by
    simpa using List.all_eq_true.mp hname c hc
  have hread := hreads.mpr ⟨hblank, fun qualifier hqualifier => by
    cases hqualifier
    decide⟩
  exact ⟨hrun, Prod.ext hread (hstays hread)⟩

/-- A class is declared that is not found by its name, for the blank in front of it is left out
when it is looked for. -/
theorem not_readType_spaced : ¬ ∀ (s t : Store) (d : Declaration) (type : TypeId),
    s.Reachable → d.parameters = [] → declare d .oldestFirst s = (.ok type, t) →
    t.aliases[d.qualifiedName]? = none → (readType d.qualifiedName t).1 = .ok type := by
  intro h
  have hread := h .empty _ spaced 0 .empty rfl (Prod.ext (by decide +kernel) rfl) (by decide +kernel)
  have hunknown : (readType " A" (declare spaced .oldestFirst .empty).2).1 =
      .error (.unknownTypeName "A") := by decide +kernel
  rw [show spaced.qualifiedName = " A" from rfl, hunknown] at hread
  cases hread

/-- Nor is a class in a namespace that does not read as a name. -/
example : (declare misplaced .oldestFirst .empty).1 = .ok 0 ∧
    (readType misplaced.qualifiedName (declare misplaced .oldestFirst .empty).2).1 =
      .error (.parse "a b.A" ⟨2, .trailingInput⟩) := by decide +kernel

end Store

end NominalTypes
