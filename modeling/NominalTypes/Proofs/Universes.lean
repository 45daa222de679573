import Mathlib.Data.List.Induction
import Mathlib.Data.List.Nodup
import NominalTypes.Proofs.NameLookup
import NominalTypes.Proofs.Text.ByteOrder
import NominalTypes.Universe.Decode

/-!
# Applying a universe

A universe is applied step by step: each type is declared, and then each keyword is registered for
the type that its target denotes, in the order of the bytes of the keywords. The keywords are a
finite map, so the steps do not depend on the order in which the map is written down or gone
through. What the steps have entered stays. At the first step that fails nothing else is done, and
all that this step leaves behind it are names that it has met and instantiations that came up while
the target of its keyword was read.

- `Universe.Enumerates.toList_eq`: the keywords in order, whatever order they come in.
- `Universe.Step.Leads`, `Universe.Step.Fails`: what a step does to a store, and how it may fail.
- `Universe.Step.IsEntered`: what can be found by name after a step.
- `Universe.Step.LeavesBehind`: what a step that has failed leaves.
- `Universe.Leads`, `Universe.AllEntered`: steps one after the other, and what all of them enter.
- `Universe.apply_by_steps`: the main result.
-/

namespace NominalTypes

open Build (bind_apply bind_eq_ok_iff bind_eq_error_iff)

namespace Universe

/-! ## Keywords in order -/

/-- The entries are those of the table, each of them once, in any order. -/
structure Enumerates (entries : List (String × String)) (table : Std.TreeMap String String) :
    Prop where
  nodup : (entries.map Prod.fst).Nodup
  mem_iff : ∀ keyword target, (keyword, target) ∈ entries ↔ table[keyword]? = some target

/-- The bytes of the first keyword are not behind those of the second one. -/
def inByteOrder (first second : String × String) : Bool :=
  decide (Text.bytes first.1 ≤ Text.bytes second.1)

variable {table table' : Std.TreeMap String String} {entries : List (String × String)}

theorem inByteOrder_iff {first second : String × String} :
    inByteOrder first second = true ↔ first.1 ≤ second.1 := by
  rw [inByteOrder, decide_eq_true_iff, ← List.not_lt, ← not_lt, Text.bytes_lt_bytes_iff]

theorem pairwise_lt_toList (table : Std.TreeMap String String) :
    table.toList.Pairwise fun first second => first.1 < second.1 :=
  table.ordered_keys_toList.imp compare_lt_iff_lt.mp

theorem enumerates_toList (table : Std.TreeMap String String) : Enumerates table.toList table where
  nodup := List.pairwise_map.mpr ((pairwise_lt_toList table).imp fun hlt => hlt.ne)
  mem_iff _ _ := Std.TreeMap.mem_toList_iff_getElem?_eq_some

/-- The table lists its entries in the order of the bytes of their keywords. -/
theorem Enumerates.toList_eq (h : Enumerates entries table) :
    table.toList = entries.mergeSort inByteOrder := by
  have hlist := enumerates_toList table
  have hperm : table.toList.Perm (entries.mergeSort inByteOrder) := by
    refine .trans ?_ (List.mergeSort_perm entries inByteOrder).symm
    refine (List.perm_ext_iff_of_nodup (List.Nodup.of_map Prod.fst hlist.nodup)
      (List.Nodup.of_map Prod.fst h.nodup)).mpr ?_
    rintro ⟨keyword, target⟩
    rw [h.mem_iff, hlist.mem_iff]
  have hsorted :
      (entries.mergeSort inByteOrder).Pairwise fun first second => first.1 ≤ second.1 := by
    refine (List.pairwise_mergeSort ?_ ?_ entries).imp inByteOrder_iff.mp
    · intro first second third
      simp only [inByteOrder_iff]
      exact le_trans
    · intro first second
      rw [Bool.or_eq_true, inByteOrder_iff, inByteOrder_iff]
      exact le_total first.1 second.1
  refine hperm.eq_of_pairwise ?_ ((pairwise_lt_toList table).imp le_of_lt) hsorted
  -- a keyword has one target only
  rintro ⟨keyword, target⟩ ⟨keyword', target'⟩ hfirst hsecond hle hge
  obtain rfl : keyword = keyword' := le_antisymm hle hge
  rw [hlist.mem_iff] at hfirst
  rw [List.mem_mergeSort, h.mem_iff, hfirst] at hsecond
  cases hsecond
  rfl

/-- Tables in which the same is found list the same. -/
theorem toList_congr (h : ∀ keyword : String, table'[keyword]? = table[keyword]?) :
    table'.toList = table.toList := by
  have hsame : Enumerates table'.toList table :=
    ⟨(enumerates_toList table').nodup, fun keyword target => by
      rw [(enumerates_toList table').mem_iff, h]⟩
  rw [(enumerates_toList table').toList_eq, ← hsame.toList_eq]

theorem aliasTable_concat (fields : List (String × String)) (field : String × String) :
    aliasTable (fields ++ [field]) = (aliasTable fields).insert field.1 field.2 := by
  rw [aliasTable, List.foldl_append]
  rfl

/-- Of several fields for one keyword the last one is found. -/
theorem getElem?_aliasTable (fields : List (String × String)) (keyword : String) :
    (aliasTable fields)[keyword]? = fields.reverse.lookup keyword := by
  induction fields using List.reverseRecOn with
  | nil => rfl
  | append_singleton fields field ih =>
    rw [aliasTable_concat, Std.TreeMap.getElem?_insert, ih, List.reverse_append,
      List.reverse_singleton, List.singleton_append, List.lookup_cons]
    by_cases heq : keyword = field.1
    · rw [heq, if_pos Std.ReflCmp.compare_self, beq_self_eq_true]
    · rw [if_neg fun h => heq (Std.LawfulEqCmp.eq_of_compare h).symm, beq_eq_false_iff_ne.mpr heq]

/-- Fields for different keywords are the entries of their table. -/
theorem enumerates_aliasTable {fields : List (String × String)}
    (h : (fields.map Prod.fst).Nodup) : Enumerates fields (aliasTable fields) := by
  refine ⟨h, fun keyword target => ?_⟩
  rw [getElem?_aliasTable, List.lookup_eq_some_iff]
  constructor
  · intro hmem
    obtain ⟨front, back, hsplit⟩ := List.append_of_mem (List.mem_reverse.mpr hmem)
    refine ⟨front, back, hsplit, fun field hfield => ?_⟩
    have hreverse : (fields.reverse.map Prod.fst).Nodup := by
      rw [List.map_reverse]
      exact List.nodup_reverse.mpr h
    rw [hsplit, List.map_append, List.map_cons] at hreverse
    have hnot := (List.nodup_append.mp hreverse).2.2 field.1 (List.mem_map_of_mem hfield) keyword
      List.mem_cons_self
    exact bne_iff_ne.mpr hnot.symm
  · rintro ⟨front, back, hsplit, -⟩
    rw [← List.mem_reverse, hsplit]
    exact List.mem_append_right _ List.mem_cons_self

/-! ## Steps -/

/-- What is done at a time: a type is declared, or a keyword is registered. -/
inductive Step where
  | declare (declaration : Declaration)
  | register (keyword target : String)

/-- The types are declared as they are listed, and the keywords are registered in the order of their
bytes. -/
def steps (types : List Declaration) (entries : List (String × String)) : List Step :=
  types.map .declare ++
    (entries.mergeSort inByteOrder).map fun (keyword, target) => .register keyword target

section Steps

variable {order : ScanOrder} {step : Step} {s t u : Store} {error : UniverseError}

/-- The step leads from one store to another. The target of a keyword is read, and the keyword is
registered for the type that it denotes. -/
inductive Step.Leads (order : ScanOrder) : Step → Store → Store → Prop
  | declare {d : Declaration} {type : TypeId} {s t : Store}
      (hdeclare : Store.declare d order s = (.ok type, t)) : Leads order (.declare d) s t
  | register {keyword target : String} {type : TypeId} {s read t : Store}
      (hread : Store.readType target s = (.ok type, read))
      (hadd : Store.addAlias keyword type read = (.ok (), t)) :
      Leads order (.register keyword target) s t

/-- The step fails with an error that tells what was to be done, and leaves a store. -/
inductive Step.Fails (order : ScanOrder) : Step → Store → UniverseError → Store → Prop
  | declaring {d : Declaration} {cause : StoreError} {s t : Store}
      (hdeclare : Store.declare d order s = (.error cause, t)) :
      Fails order (.declare d) s (.declaring d.qualifiedName cause) t
  | resolving {keyword target : String} {cause : StoreError} {s t : Store}
      (hread : Store.readType target s = (.error cause, t)) :
      Fails order (.register keyword target) s (.resolvingAlias keyword target cause) t
  | registering {keyword target : String} {type : TypeId} {cause : StoreError} {s read t : Store}
      (hread : Store.readType target s = (.ok type, read))
      (hadd : Store.addAlias keyword type read = (.error cause, t)) :
      Fails order (.register keyword target) s (.registeringAlias keyword cause) t

/-- The steps lead from one store to another, one after the other. -/
inductive Leads (order : ScanOrder) : List Step → Store → Store → Prop
  | nil (s : Store) : Leads order [] s s
  | cons {step : Step} {rest : List Step} {s t u : Store} (hstep : step.Leads order s t)
      (hrest : Leads order rest t u) : Leads order (step :: rest) s u

/-- Takes the step. -/
def Step.perform (order : ScanOrder) : Step → ExceptT UniverseError (StateM Store) Unit
  | .declare declaration => Universe.declare order declaration
  | .register keyword target => Universe.register keyword target

/-- With another wording for its errors an operation gives the same answers. -/
theorem adapt_eq_ok_iff {α : Type} {operation : Build α} {context : StoreError → UniverseError}
    {a : α} : operation.adapt context s = (.ok a, t) ↔ operation s = (.ok a, t) := by
  have hadapt : operation.adapt context s =
      ((operation s).1.mapError context, (operation s).2) := rfl
  rw [hadapt]
  rcases operation s with ⟨cause | a', t'⟩
  · exact ⟨nofun, nofun⟩
  · exact ⟨fun h => by cases h; rfl, fun h => by cases h; rfl⟩

theorem adapt_eq_error_iff {α : Type} {operation : Build α} {context : StoreError → UniverseError} :
    operation.adapt context s = (.error error, t) ↔
      ∃ cause, operation s = (.error cause, t) ∧ error = context cause := by
  have hadapt : operation.adapt context s =
      ((operation s).1.mapError context, (operation s).2) := rfl
  rw [hadapt]
  rcases operation s with ⟨cause | a', t'⟩
  · constructor
    · intro h
      cases h
      exact ⟨cause, rfl, rfl⟩
    · rintro ⟨_, h, rfl⟩
      cases h
      rfl
  · exact ⟨nofun, fun ⟨_, h, _⟩ => by cases h⟩

theorem Step.perform_eq_ok_iff : step.perform order s = (.ok (), t) ↔ step.Leads order s t := by
  cases step with
  | declare d =>
    rw [perform, Universe.declare, bind_eq_ok_iff]
    constructor
    · rintro ⟨type, t', hdeclare, h⟩
      cases h
      exact .declare (adapt_eq_ok_iff.mp hdeclare)
    · rintro ⟨hdeclare⟩
      exact ⟨_, _, adapt_eq_ok_iff.mpr hdeclare, rfl⟩
  | register keyword target =>
    rw [perform, Universe.register, bind_eq_ok_iff]
    constructor
    · rintro ⟨type, read, hread, hadd⟩
      exact .register (adapt_eq_ok_iff.mp hread) (adapt_eq_ok_iff.mp hadd)
    · rintro (_ | ⟨hread, hadd⟩)
      exact ⟨_, _, adapt_eq_ok_iff.mpr hread, adapt_eq_ok_iff.mpr hadd⟩

theorem Step.perform_eq_error_iff :
    step.perform order s = (.error error, t) ↔ step.Fails order s error t := by
  cases step with
  | declare d =>
    rw [perform, Universe.declare, bind_eq_error_iff]
    constructor
    · rintro (hdeclare | ⟨_, _, -, h⟩)
      · obtain ⟨cause, hfailed, rfl⟩ := adapt_eq_error_iff.mp hdeclare
        exact .declaring hfailed
      · cases h
    · rintro ⟨hdeclare⟩
      exact .inl (adapt_eq_error_iff.mpr ⟨_, hdeclare, rfl⟩)
  | register keyword target =>
    rw [perform, Universe.register, bind_eq_error_iff]
    constructor
    · rintro (hread | ⟨type, read, hread, hadd⟩)
      · obtain ⟨cause, hfailed, rfl⟩ := adapt_eq_error_iff.mp hread
        exact .resolving hfailed
      · obtain ⟨cause, hfailed, rfl⟩ := adapt_eq_error_iff.mp hadd
        exact .registering (adapt_eq_ok_iff.mp hread) hfailed
    · rintro (_ | hread | ⟨hread, hadd⟩)
      · exact .inl (adapt_eq_error_iff.mpr ⟨_, hread, rfl⟩)
      · exact .inr ⟨_, _, adapt_eq_ok_iff.mpr hread, adapt_eq_error_iff.mpr ⟨_, hadd, rfl⟩⟩

/-- The steps of a list are taken one after the other. -/
theorem forM_perform_eq_ok_iff {all : List Step} :
    all.forM (Step.perform order) s = (.ok (), t) ↔ Leads order all s t := by
  induction all generalizing s with
  | nil =>
    constructor
    · intro h
      cases h
      exact .nil _
    · rintro ⟨⟩
      rfl
  | cons step rest ih =>
    rw [List.forM, bind_eq_ok_iff]
    constructor
    · rintro ⟨_, u, hstep, hrest⟩
      exact .cons (Step.perform_eq_ok_iff.mp hstep) (ih.mp hrest)
    · rintro (_ | ⟨hstep, hrest⟩)
      exact ⟨_, _, Step.perform_eq_ok_iff.mpr hstep, ih.mpr hrest⟩

/-- What fails is one of the steps, after those in front of it. -/
theorem exists_split_of_forM {all : List Step}
    (h : all.forM (Step.perform order) s = (.error error, t)) :
    ∃ done failing rest reached, all = done ++ failing :: rest ∧ Leads order done s reached ∧
      failing.Fails order reached error t := by
  induction all generalizing s with
  | nil => cases h
  | cons step all ih =>
    rw [List.forM] at h
    rcases bind_eq_error_iff.mp h with hstep | ⟨_, u, hstep, hrest⟩
    · exact ⟨[], step, all, s, rfl, .nil s, Step.perform_eq_error_iff.mp hstep⟩
    · obtain ⟨done, failing, rest, reached, rfl, hdone, hfails⟩ := ih hrest
      exact ⟨step :: done, failing, rest, reached, rfl,
        .cons (Step.perform_eq_ok_iff.mp hstep) hdone, hfails⟩

/-- A universe is applied step by step. -/
theorem Enumerates.apply_eq {v : Universe} (h : Enumerates entries v.aliases) :
    v.apply order = (steps v.types entries).forM (Step.perform order) := by
  rw [steps, ← h.toList_eq]
  refine Eq.symm (List.forM_append.trans ?_)
  rw [List.forM_map, List.forM_map]
  rfl

end Steps

/-! ## Which steps are done -/

section Prefixes

variable {order : ScanOrder} {front back done rest all : List Step} {step failing : Step}
  {s t u reached left : Store} {error : UniverseError}

theorem leads_append_iff : Leads order (front ++ back) s u ↔
    ∃ t, Leads order front s t ∧ Leads order back t u := by
  induction front generalizing s with
  | nil =>
    refine ⟨fun h => ⟨s, .nil s, h⟩, ?_⟩
    rintro ⟨_, ⟨⟩, h⟩
    exact h
  | cons step front ih =>
    constructor
    · rintro (_ | ⟨hstep, hrest⟩)
      obtain ⟨t, hfront, hback⟩ := ih.mp hrest
      exact ⟨t, .cons hstep hfront, hback⟩
    · rintro ⟨t, _ | ⟨hstep, hfront⟩, hback⟩
      exact .cons hstep (ih.mpr ⟨t, hfront, hback⟩)

/-- The steps lead to one store only. -/
theorem Leads.unique (h : Leads order all s t) (h' : Leads order all s u) : t = u := by
  have hrun := forM_perform_eq_ok_iff.mpr h
  rw [forM_perform_eq_ok_iff.mpr h'] at hrun
  cases hrun
  rfl

/-- A step that fails leads nowhere. -/
theorem Step.Fails.not_leads (h : step.Fails order s error t) : ¬ step.Leads order s u := by
  intro hleads
  have hrun := Step.perform_eq_error_iff.mpr h
  rw [Step.perform_eq_ok_iff.mpr hleads] at hrun
  cases hrun

/-- No longer part of the steps leads anywhere than the one in front of a step that fails. -/
theorem Leads.prefix_of_fails (hdone : Leads order done s reached)
    (hfails : failing.Fails order reached error t) (hfront : front <+: done ++ failing :: rest)
    (hleft : Leads order front s left) : front <+: done := by
  rcases List.prefix_or_prefix_of_prefix hfront (List.prefix_append done (failing :: rest)) with
    hshort | ⟨more, rfl⟩
  · exact hshort
  · obtain ⟨reached', hdone', hmore⟩ := leads_append_iff.mp hleft
    obtain rfl := hdone.unique hdone'
    cases hmore with
    | nil => exact ⟨[], by rw [List.append_nil, List.append_nil]⟩
    | cons hstep =>
      obtain ⟨rfl, -⟩ := List.cons_prefix_cons.mp ((List.prefix_append_right_inj done).mp hfront)
      exact absurd hstep hfails.not_leads

end Prefixes

/-! ## What a step enters -/

section Entries

variable {order : ScanOrder} {front back done rest all : List Step} {step failing : Step}
  {s t u : Store} {error : UniverseError}

/-- What the second store tells of a step that was taken from the first one. The qualified name of a
declaration, which was free, is the one of the type that was next. A keyword, which was free, stands
for the type that its target denoted. -/
def Step.IsEntered : Step → Store → Store → Prop
  | .declare d, s, t => s.qualifiedNames[(d.qualifiedName, d.parameters.length)]? = none ∧
    t.qualifiedNames[(d.qualifiedName, d.parameters.length)]? = some s.size
  | .register keyword target, s, t => ∃ type, (Store.readType target s).1 = .ok type ∧
    s.aliases[keyword]? = none ∧ t.aliases[keyword]? = some type ∧ t.lookup keyword 0 = .ok type

/-- What is found by a keyword or a qualified name is found by it later on too. -/
structure KeepsEntries (s t : Store) : Prop where
  aliases : ∀ (keyword : String) (type : TypeId), s.aliases[keyword]? = some type →
    t.aliases[keyword]? = some type
  qualifiedNames : ∀ (key : String × Nat) (type : TypeId), s.qualifiedNames[key]? = some type →
    t.qualifiedNames[key]? = some type

namespace KeepsEntries

theorem refl (s : Store) : KeepsEntries s s := ⟨fun _ _ => id, fun _ _ => id⟩

theorem trans (h : KeepsEntries s t) (h' : KeepsEntries t u) : KeepsEntries s u :=
  ⟨fun keyword type => h'.aliases keyword type ∘ h.aliases keyword type,
    fun key type => h'.qualifiedNames key type ∘ h.qualifiedNames key type⟩

theorem of_sameNaming (h : s.SameNaming t) : KeepsEntries s t :=
  ⟨fun _ _ => by rw [h.aliases]; exact id, fun _ _ => by rw [h.qualifiedNames]; exact id⟩

end KeepsEntries

theorem Step.IsEntered.later (h : step.IsEntered s t) (htu : KeepsEntries t u) :
    step.IsEntered s u := by
  cases step with
  | declare d => exact ⟨h.1, htu.qualifiedNames _ _ h.2⟩
  | register keyword target =>
    obtain ⟨type, hread, hfree, halias, -⟩ := h
    have halias := htu.aliases _ _ halias
    exact ⟨type, hread, hfree, halias, Store.lookup_of_alias halias⟩

/-- A declared type is entered under its qualified name. -/
theorem isEntered_declare (hs : s.Coherent) {d : Declaration} {type : TypeId}
    (hdeclare : Store.declare d order s = (.ok type, t)) :
    (Step.declare d).IsEntered s t ∧ KeepsEntries s t := by
  obtain ⟨met, hdeclares⟩ := (Store.declare_declares hs d).of_ok hdeclare
  have hnaming := hdeclares.unchanged.sameNaming
  have hfree : s.qualifiedNames[(d.qualifiedName, d.parameters.length)]? = none := by
    rw [← hnaming.qualifiedNames]
    exact hdeclares.new
  have hentry : ∀ key, t.qualifiedNames[key]? =
      if key = (d.qualifiedName, d.parameters.length) then some s.size
      else s.qualifiedNames[key]? := fun key => by
    rw [hdeclares.naming.qualifiedNames, Store.qualifiedNames_enter, hnaming.qualifiedNames,
      hdeclares.unchanged.size_eq]
  have hown := (hentry (d.qualifiedName, d.parameters.length)).trans (if_pos rfl)
  refine ⟨⟨hfree, hown⟩, fun keyword type halias => ?_, fun key type hkey => ?_⟩
  · rwa [hdeclares.naming.aliases, show (met.enter d).aliases = met.aliases from rfl,
      hnaming.aliases]
  · have hne : key ≠ (d.qualifiedName, d.parameters.length) := by
      rintro rfl
      rw [hfree] at hkey
      cases hkey
    rwa [hentry, if_neg hne]

/-- A keyword is entered for the type that its target denotes. -/
theorem isEntered_register (hs : s.Coherent) {keyword target : String} {type : TypeId}
    {read : Store} (hread : Store.readType target s = (.ok type, read))
    (hadd : Store.addAlias keyword type read = (.ok (), t)) :
    (Step.register keyword target).IsEntered s t ∧ KeepsEntries s t := by
  obtain ⟨-, hnaming⟩ := (Store.OnlyBuilds.readTypeIn target s hs).of_ok hread
  obtain ⟨htables, hfree, haliases⟩ := (Store.addAlias_sameTables read keyword type).of_ok hadd
  rw [hnaming.aliases] at hfree haliases
  have halias : t.aliases[keyword]? = some type := by
    rw [haliases, Std.ExtTreeMap.getElem?_insert_self]
  refine ⟨⟨type, by rw [hread], hfree, halias, Store.lookup_of_alias halias⟩,
    fun keyword' type' hkeyword => ?_, fun key type' hkey => ?_⟩
  · have hne : keyword ≠ keyword' := by
      rintro rfl
      rw [hfree] at hkeyword
      cases hkeyword
    rw [haliases, Std.ExtTreeMap.getElem?_insert, if_neg fun heq => hne
      (Std.LawfulEqCmp.eq_of_compare heq)]
    exact hkeyword
  · rwa [htables.qualifiedNames, hnaming.qualifiedNames]

theorem Step.Leads.isEntered (hs : s.Coherent) (h : step.Leads order s t) :
    step.IsEntered s t ∧ KeepsEntries s t := by
  cases h with
  | declare hdeclare => exact isEntered_declare hs hdeclare
  | register hread hadd => exact isEntered_register hs hread hadd

theorem Step.Leads.coherent (hs : s.Coherent) (h : step.Leads order s t) : t.Coherent := by
  cases h with
  | declare hdeclare => exact ((Store.declare_ends hs).of_ok hdeclare).1
  | register hread hadd =>
    obtain ⟨hadvances, -⟩ := (Store.OnlyBuilds.readTypeIn _ s hs).of_ok hread
    exact ((Store.addAlias_ends hadvances.consistent _).of_ok hadd).1

theorem Leads.coherent (hs : s.Coherent) (h : Leads order all s t) : t.Coherent := by
  induction h with
  | nil s => exact hs
  | cons hstep _ ih => exact ih (hstep.coherent hs)

theorem Leads.keepsEntries (hs : s.Coherent) (h : Leads order all s t) : KeepsEntries s t := by
  induction h with
  | nil s => exact .refl s
  | cons hstep _ ih => exact (hstep.isEntered hs).2.trans (ih (hstep.coherent hs))

/-- What each of the steps has entered is found in the last store. -/
def AllEntered (order : ScanOrder) (all : List Step) (s t : Store) : Prop :=
  ∀ front step back, all = front ++ step :: back →
    ∃ before, Leads order front s before ∧ step.IsEntered before t

theorem Leads.allEntered (hs : s.Coherent) (h : Leads order all s t) (htu : KeepsEntries t u) :
    AllEntered order all s u := by
  rintro front step back rfl
  obtain ⟨before, hfront, hrest⟩ := leads_append_iff.mp h
  have hbefore := hfront.coherent hs
  cases hrest with
  | cons hstep hback =>
    have hlater := (hback.keepsEntries (hstep.coherent hbefore)).trans htu
    exact ⟨before, hfront, (hstep.isEntered hbefore).1.later hlater⟩

end Entries

/-! ## What a step leaves -/

section Failures

variable {order : ScanOrder} {step : Step} {s t : Store} {error : UniverseError}

/-- What is left by a step that has failed: names that it has met and, if it was to register a
keyword, instantiations that came up while the target was read. -/
def Step.LeavesBehind : Step → Store → Store → Prop
  | .declare _, s, t => s.UnchangedButNames t
  | .register _ target, s, t =>
    s.Builds ((Store.readType target).after s) ∧ s.SameNaming ((Store.readType target).after s) ∧
      ((Store.readType target).after s).UnchangedButNames t

/-- A failed declaration is taken back as a whole. A keyword fails while its target is read, or
because it cannot be entered for the type. -/
theorem Step.Fails.leavesBehind (hs : s.Coherent) (h : step.Fails order s error t) :
    step.LeavesBehind s t := by
  have hreads : ∀ target, s.Builds ((Store.readType target).after s) ∧
      s.SameNaming ((Store.readType target).after s) := by
    intro target
    have hread : (Store.readType target).Ends s _ _ := Store.OnlyBuilds.readTypeIn target s hs
    obtain ⟨hadvances, hnaming⟩ := hread.store (fun _ _ => id) fun _ => id
    exact ⟨hadvances.builds, hnaming⟩
  cases h with
  | declaring hdeclare => exact (Store.declare_ends hs).of_error hdeclare
  | resolving hread =>
    obtain ⟨hbuilds, hnaming⟩ := hreads _
    refine ⟨hbuilds, hnaming, ?_⟩
    rw [Build.after, ExceptT.run, hread]
    exact .refl t
  | registering hread hadd =>
    obtain ⟨hbuilds, hnaming⟩ := hreads _
    refine ⟨hbuilds, hnaming, ?_⟩
    rw [Build.after, ExceptT.run, hread]
    exact (Store.addAlias_sameTables _ _ _).of_error hadd

/-- Nothing that was found is lost. -/
theorem Step.LeavesBehind.keepsEntries (h : step.LeavesBehind s t) : KeepsEntries s t := by
  cases step with
  | declare d => exact .of_sameNaming (Store.UnchangedButNames.sameNaming h)
  | register keyword target => exact .of_sameNaming (h.2.1.trans h.2.2.sameNaming)

end Failures

/-! ## The whole universe -/

/-- A universe does the same as any other one with the same types, in their order, in which the same
is found for all keywords, also if it comes from fields in another order. Whatever order the
keywords are gone through, its steps are those in the order of their bytes. It succeeds exactly if
they lead to a store. If it fails, it is at one of the steps. All steps in front of this one have
been done, but no longer part of the steps can be, and it leaves the store that these led to but for
what a failed step leaves behind it. In either case all types that have been declared are found
afterwards, and all keywords that have been registered. -/
theorem apply_by_steps {s : Store} (hs : s.Reachable) (order : ScanOrder) (u : Universe) :
    (∀ v : Universe, v.types = u.types →
      (∀ keyword : String, v.aliases[keyword]? = u.aliases[keyword]?) →
        v.apply order = u.apply order) ∧
    (∀ fields : List (String × String),
      (∀ keyword : String, fields.reverse.lookup keyword = u.aliases[keyword]?) →
        apply ⟨u.types, aliasTable fields⟩ order = u.apply order) ∧
    ∀ entries, Enumerates entries u.aliases →
      (∀ t, u.apply order s = (.ok (), t) ↔ Leads order (steps u.types entries) s t) ∧
      (∀ t, u.apply order s = (.ok (), t) → AllEntered order (steps u.types entries) s t) ∧
      ∀ error t, u.apply order s = (.error error, t) → ∃ done failing rest reached,
        steps u.types entries = done ++ failing :: rest ∧
        Leads order done s reached ∧ failing.Fails order reached error t ∧
        failing.LeavesBehind reached t ∧ AllEntered order done s t ∧
        ∀ front left, front <+: steps u.types entries → Leads order front s left →
          front <+: done := by
  have hsame : ∀ v : Universe, v.types = u.types →
      (∀ keyword : String, v.aliases[keyword]? = u.aliases[keyword]?) →
        v.apply order = u.apply order := by
    intro v htypes haliases
    rw [apply, apply, htypes, toList_congr haliases]
  refine ⟨hsame, fun fields hfields => hsame _ rfl fun keyword => ?_, fun entries hentries => ?_⟩
  · rw [getElem?_aliasTable, hfields]
  rw [hentries.apply_eq]
  refine ⟨fun t => forM_perform_eq_ok_iff, fun t hok => ?_, fun error t hfailed => ?_⟩
  · exact (forM_perform_eq_ok_iff.mp hok).allEntered hs.coherent (.refl t)
  · obtain ⟨done, failing, rest, reached, hsplit, hdone, hfails⟩ := exists_split_of_forM hfailed
    have hleaves := hfails.leavesBehind (hdone.coherent hs.coherent)
    refine ⟨done, failing, rest, reached, hsplit, hdone, hfails, hleaves,
      hdone.allEntered hs.coherent hleaves.keepsEntries, fun front left hfront hleft => ?_⟩
    exact hdone.prefix_of_fails hfails (hsplit ▸ hfront) hleft

/-- An interface `I<T>`, classes `A` and `Two<T, U>`, and two keywords, of which the one that is
given first has an unknown name in its target. -/
def halfKnown : Universe where
  types := [{ Declaration.plain .interface "I" with parameters := ["T"] }, .plain .classType "A",
    { Declaration.plain .classType "Two" with parameters := ["T", "U"] }]
  aliases := aliasTable [("b", "Two<I<A>, Nope>"), ("a", "A")]

/-- `Two<I<A>, Nope>` is not read to its end, but `I<A>` is left behind as the seventh type. The
other keyword has been registered. -/
theorem apply_halfKnown :
    (halfKnown.apply .oldestFirst .empty).1 =
      .error (.resolvingAlias "b" "Two<I<A>, Nope>" (.unknownTypeName "Nope")) ∧
    (halfKnown.apply .oldestFirst .empty).2.size = 7 ∧
    (halfKnown.apply .oldestFirst .empty).2.aliases["a"]? = some 2 ∧
    ∃ done failing rest reached,
      steps halfKnown.types [("b", "Two<I<A>, Nope>"), ("a", "A")] = done ++ failing :: rest ∧
        Leads .oldestFirst done .empty reached ∧
        failing.LeavesBehind reached (halfKnown.apply .oldestFirst .empty).2 ∧
        AllEntered .oldestFirst done .empty (halfKnown.apply .oldestFirst .empty).2 := by
  have hfailed : (halfKnown.apply .oldestFirst .empty).1 =
      .error (.resolvingAlias "b" "Two<I<A>, Nope>" (.unknownTypeName "Nope")) := by decide +kernel
  have hentries : Enumerates [("b", "Two<I<A>, Nope>"), ("a", "A")] halfKnown.aliases :=
    enumerates_aliasTable (by decide)
  obtain ⟨-, -, hsteps⟩ := apply_by_steps .empty .oldestFirst halfKnown
  obtain ⟨done, failing, rest, reached, hsplit, hdone, -, hleaves, hentered, -⟩ :=
    (hsteps _ hentries).2.2 _ _ (Prod.ext hfailed rfl)
  exact ⟨hfailed, by decide +kernel, by decide +kernel, done, failing, rest, reached, hsplit, hdone,
    hleaves, hentered⟩

end Universe

end NominalTypes
