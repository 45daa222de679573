import NominalTypes.Proofs.Building.Resolution

/-!
# Declarations keep stores consistent

A declaration enters its type without supertypes, resolves them, fills them in, and then fills in
those of the instantiations that the type has got meanwhile. These are just the types that are
pending in between.

- `Store.Consistent.enter`: entering the type and its parameters.
- `Store.head_le_of_builds`: what can be built then has an older declared type behind it, or the
  entered type itself.
- `Store.completeSupertypes_ends`, `Store.resolveSupertypes_ends`: filling in the supertypes.
- `Store.declare_ends`, `Store.addAlias_ends`, `Store.giveRole_ends`: the operations as a whole.
-/

namespace NominalTypes.Store

open Build (Ends ends_pure ends_throw ends_get ends_set ends_modify)

variable {pending : TypeId → Prop} {s t u : Store} {type : TypeId} {d : Declaration}
  {order : ScanOrder}

/-! ## Entering a type -/

section Enter

/-- The handles of the parameters of the next declaration. -/
def nextParameters (s : Store) (d : Declaration) : List TypeId :=
  List.range' (s.size + 1) d.parameters.length

theorem getElem?_nextParameters {position param : Nat} :
    (s.nextParameters d)[position]? = some param ↔
      position < d.parameters.length ∧ param = s.size + 1 + position := by
  unfold nextParameters
  by_cases h : position < d.parameters.length
  · rw [List.getElem?_range' h, Nat.one_mul, Option.some_inj]
    exact ⟨fun heq => ⟨h, heq.symm⟩, fun heq => heq.2.symm⟩
  · rw [List.getElem?_eq_none (by rw [List.length_range']; exact Nat.le_of_not_lt h)]
    exact iff_of_false (by simp) fun heq => h heq.1

/-- The descriptor with which a declared type is entered. -/
def entered (s : Store) (d : Declaration) : Descriptor :=
  .bare d.name d.effectiveQualifier d.kind d.modifiers
    (if d.parameters.length = 0 then .declared else .definition (s.nextParameters d))

theorem isInstantiation_entered (s : Store) (d : Declaration) :
    (s.entered d).origin.isInstantiation = false := by
  unfold entered
  dsimp only [Descriptor.bare]
  split <;> rfl

theorem qualifiedName_entered (s : Store) (d : Declaration) :
    (s.entered d).qualifiedName = d.qualifiedName := rfl

theorem arity_entered (s : Store) (d : Declaration) :
    (s.entered d).arity = d.parameters.length := by
  unfold Descriptor.arity Descriptor.arguments entered Descriptor.bare
  by_cases harity : d.parameters.length = 0
  · simp [harity]
  · simp [harity, nextParameters]

theorem types_enter (s : Store) (d : Declaration) :
    (s.enter d).types.toList = s.types.toList ++ s.entered d :: d.parameters.mapIdx
      fun position name => .parameter name (.typeParameter s.size position) := by
  unfold enter
  rw [Array.toList_appendList, Array.toList_push, List.append_assoc, List.singleton_append]
  rfl

theorem size_enter (s : Store) (d : Declaration) :
    (s.enter d).size = s.size + 1 + d.parameters.length := by
  rw [size, ← Array.length_toList, types_enter, List.length_append, List.length_cons,
    List.length_mapIdx, Array.length_toList, size]
  omega

/-- The parameters in scope are known as soon as the type is entered. -/
theorem lt_of_mem_scope (s : Store) (d : Declaration) :
    ∀ entry ∈ d.parameters.zip (s.nextParameters d), entry.2 < (s.enter d).size := by
  intro entry hentry
  have hmem := (List.of_mem_zip (a := entry.1) (b := entry.2) hentry).2
  rw [size_enter]
  exact (List.mem_range'_1.mp hmem).2

theorem get?_enter_own (s : Store) (d : Declaration) :
    (s.enter d).get? s.size = some (s.entered d) := by
  have hlength : s.types.toList.length ≤ s.size := Nat.le_of_eq Array.length_toList
  rw [get?, ← Array.getElem?_toList, types_enter, List.getElem?_append_right hlength]
  simp [size]

theorem get?_enter_parameter (s : Store) (d : Declaration) (position : Nat) :
    (s.enter d).get? (s.size + 1 + position) = d.parameters[position]?.map fun name =>
      .parameter name (.typeParameter s.size position) := by
  have hlength : s.types.toList.length = s.size := Array.length_toList
  have hindex : s.size + 1 + position - s.size = position + 1 := by omega
  rw [get?, ← Array.getElem?_toList, types_enter, List.getElem?_append_right (by omega), hlength,
    hindex, List.getElem?_cons_succ, List.getElem?_mapIdx]

/-- A type that is new after a declaration has been entered is the declared type or one of its
parameters. -/
theorem get?_enter_new {e : Descriptor} (hle : s.size ≤ type)
    (he : (s.enter d).get? type = some e) :
    (type = s.size ∧ e = s.entered d) ∨
      ∃ position name, type = s.size + 1 + position ∧ d.parameters[position]? = some name ∧
        e = .parameter name (.typeParameter s.size position) := by
  rcases Nat.eq_or_lt_of_le hle with rfl | hlt
  · rw [get?_enter_own] at he
    exact .inl ⟨rfl, (Option.some.inj he).symm⟩
  · obtain ⟨position, rfl⟩ := Nat.exists_eq_add_of_le hlt
    rw [get?_enter_parameter] at he
    obtain ⟨name, hname, rfl⟩ := Option.map_eq_some_iff.mp he
    exact .inr ⟨position, name, rfl, hname, rfl⟩

theorem simpleNames_enter (key : String × Nat) :
    (s.enter d).simpleNames[key]? =
      if key = (d.name, d.parameters.length) then
        some ((s.simpleNames[key]?).getD [] ++ [s.size])
      else s.simpleNames[key]? := by
  unfold enter
  rw [Std.ExtTreeMap.getElem?_insert]
  split
  · next heq =>
    obtain rfl := Std.LawfulEqCmp.eq_of_compare heq
    rw [if_pos rfl]
  · next hne =>
    rw [if_neg]
    rintro rfl
    exact hne Std.ReflCmp.compare_self

theorem qualifiedNames_enter (key : String × Nat) :
    (s.enter d).qualifiedNames[key]? =
      if key = (d.qualifiedName, d.parameters.length) then some s.size
      else s.qualifiedNames[key]? := by
  unfold enter
  rw [Std.ExtTreeMap.getElem?_insert]
  refine if_congr ?_ rfl rfl
  rw [Std.LawfulEqCmp.compare_eq_iff_eq]
  exact eq_comm

/-- Entering a new type is growth. -/
theorem Closed.grows_enter (hs : s.Closed)
    (hnew : s.qualifiedNames[(d.qualifiedName, d.parameters.length)]? = none) :
    s.Grows (s.enter d) := by
  refine ⟨?_, .refl _⟩
  show (s.enter d).rollback s.size = s
  have hsame : (s.enter d).rollback s.size = s.rollback s.size := by
    simp only [rollback, mk.injEq]
    refine ⟨rfl, ?_, ?_, ?_, rfl, rfl, rfl, rfl, rfl⟩
    · refine Array.toList_inj.mp ?_
      have hlength : s.size ≤ s.types.toList.length := Nat.le_of_eq Array.length_toList.symm
      rw [Array.take_eq_extract, Array.take_eq_extract, Array.toList_extract, Array.toList_extract,
        types_enter, List.extract_eq_take_drop, List.extract_eq_take_drop, List.drop_zero,
        List.drop_zero, Nat.sub_zero, List.take_append_of_le_length hlength]
    · refine Std.ExtTreeMap.ext_getElem? fun key => ?_
      rw [Std.ExtTreeMap.getElem?_filterMap', Std.ExtTreeMap.getElem?_filterMap',
        simpleNames_enter]
      split
      · have hlast : ∀ types : List TypeId,
            olderThan s.size (types ++ [s.size]) = olderThan s.size types := by
          intro types
          unfold olderThan
          simp
        cases hkey : s.simpleNames[key]? with
        | none => rw [Option.getD_none, Option.bind_some, hlast]; rfl
        | some types => rw [Option.getD_some, Option.bind_some, hlast]; rfl
      · rfl
    · refine filter_insert_of_not hnew ?_
      simp
  rw [hsame, hs.rollback_size]

theorem Closed.enter (hs : s.Closed) : (s.enter d).Closed := by
  have hself : s.size < (s.enter d).size := by rw [size_enter]; omega
  have hlt : ∀ {other : TypeId}, other < s.size → other < (s.enter d).size :=
    fun h => Nat.lt_trans h hself
  constructor
  · intro key types hkey
    rw [simpleNames_enter] at hkey
    split at hkey
    · cases hkey
      refine ⟨by simp, fun other hother => ?_⟩
      rcases List.mem_append.mp hother with hold | hnew
      · cases hsimple : s.simpleNames[key]? with
        | none =>
          rw [hsimple] at hold
          cases hold
        | some types =>
          rw [hsimple] at hold
          exact hlt ((hs.simpleNames key types hsimple).2 other hold)
      · rw [List.mem_singleton.mp hnew]
        exact hself
    · obtain ⟨hne, htypes⟩ := hs.simpleNames key types hkey
      exact ⟨hne, fun other hother => hlt (htypes other hother)⟩
  · intro key other hkey
    rw [qualifiedNames_enter] at hkey
    split at hkey
    · cases hkey
      exact hself
    · exact hlt (hs.qualifiedNames key other hkey)
  · exact fun key other hkey => hlt (hs.aliases key other hkey)
  · exact fun key other hkey => hlt (hs.keywords key other hkey)
  · intro key other hkey
    obtain ⟨hkey₁, hother, hkey₂⟩ := hs.instantiations key other hkey
    exact ⟨hlt hkey₁, hlt hother, fun arg harg => hlt (hkey₂ arg harg)⟩
  · exact fun key other hkey => hlt (hs.freeParameters key other hkey)

/-- The declared type and its parameters are sound. -/
theorem soundAt_enter (hkind : d.kind ≠ .parameter) {e : Descriptor} (hle : s.size ≤ type)
    (he : (s.enter d).get? type = some e) : (s.enter d).SoundAt type e := by
  rcases get?_enter_new hle he with ⟨rfl, rfl⟩ | ⟨position, name, rfl, hname, rfl⟩
  · refine SoundOrigin.soundAt ?_ rfl rfl
    by_cases harity : d.parameters.length = 0
    · have horigin : (s.entered d).origin = .declared := if_pos harity
      unfold SoundOrigin
      rw [horigin]
      exact hkind
    · have horigin : (s.entered d).origin = .definition (s.nextParameters d) := if_neg harity
      unfold SoundOrigin
      rw [horigin]
      refine ⟨hkind, ?_, ?_⟩
      · intro hnil
        exact harity (List.range'_eq_nil_iff.mp hnil)
      · intro position param hparam
        obtain ⟨hposition, rfl⟩ := getElem?_nextParameters.mp hparam
        refine ⟨rfl, ?_⟩
        rw [origin?, get?_enter_parameter, List.getElem?_eq_getElem hposition]
        rfl
  · refine SoundOrigin.soundAt ?_ rfl rfl
    have hposition := (List.getElem?_eq_some_iff.mp hname).1
    have harity : ¬ d.parameters.length = 0 := by omega
    have horigin : (s.entered d).origin = .definition (s.nextParameters d) := if_neg harity
    refine ⟨rfl, by lia, s.nextParameters d, ?_, ?_⟩
    · rw [origin?, get?_enter_own, Option.map_some, horigin]
    · exact getElem?_nextParameters.mpr ⟨hposition, rfl⟩

/-- The declared type is found by its name, and so are the older ones, as the name is new. -/
theorem NamesFit.enter (hs : s.NamesFit) (hkeeps : s.KeepsOutlines (s.enter d))
    (hnew : s.qualifiedNames[(d.qualifiedName, d.parameters.length)]? = none) :
    (s.enter d).NamesFit where
  keyword := hs.keyword
  declared other e he hdeclared := by
    rw [qualifiedNames_enter]
    by_cases hother : other < s.size
    · rw [hkeeps.outline other hother] at he
      have hold := hs.declared other e he hdeclared
      rw [if_neg, hold]
      intro hkey
      rw [hkey, hnew] at hold
      cases hold
    · obtain ⟨f, hf, rfl⟩ := Option.map_eq_some_iff.mp he
      rcases get?_enter_new (Nat.le_of_not_lt hother) hf with ⟨rfl, rfl⟩ | ⟨_, _, -, -, rfl⟩
      · exact if_pos (congrArg₂ Prod.mk (s.qualifiedName_entered d) (s.arity_entered d))
      · cases hdeclared

/-- A store stays consistent when a declared type is entered without supertypes. -/
theorem Consistent.enter (hs : s.Consistent pending) (hkind : d.kind ≠ .parameter)
    (hnew : s.qualifiedNames[(d.qualifiedName, d.parameters.length)]? = none) :
    (s.enter d).Consistent pending := by
  have hgrows : s.Grows (s.enter d) := hs.wellFormed.closed.grows_enter hnew
  have hwf : (s.enter d).WellFormed :=
    hs.wellFormed.extend (fun other h => hgrows.get?_eq h) hgrows.keepsOutlines
      hs.wellFormed.closed.enter (fun other e hle he => soundAt_enter hkind hle he)
      (fun _ _ _ h => .inl h) (fun _ _ h => .inl h) rfl
      (hs.wellFormed.names.enter hgrows.keepsOutlines hnew)
  refine hs.grow hgrows hwf (fun _ => id) ?_
  -- neither the entered type nor its parameters are instantiations
  intro other hle _ _ e g generic args isOpen he horigin
  rcases get?_enter_new hle he with ⟨-, rfl⟩ | ⟨position, name, -, -, rfl⟩
  · have hnot := s.isInstantiation_entered d
    rw [horigin] at hnot
    cases hnot
  · cases horigin

end Enter

/-! ## Supertypes of the entered type -/

/-- The declared type behind a type is not an instantiation. -/
theorem WellFormed.origin?_head (hs : s.WellFormed) (htype : type < s.size) :
    ∃ o, s.origin? (s.head type) = some o ∧ o.isInstantiation = false := by
  obtain ⟨e, he⟩ := exists_get? htype
  have ho := origin?_of_get? he
  unfold head
  rw [definitionOf?_eq_origin?]
  cases horigin : e.origin with
  | declared | definition _ | typeParameter _ _ | methodParameter =>
    rw [horigin] at ho
    rw [ho]
    exact ⟨_, ho, rfl⟩
  | instantiation generic args isOpen =>
    rw [horigin] at ho
    obtain ⟨_, -, hsound⟩ := hs.instantiation ho
    obtain ⟨params, hparams, -⟩ := hsound.parameters
    rw [ho]
    exact ⟨_, hparams, rfl⟩

theorem WellFormed.head_lt_size (hs : s.WellFormed) (htype : type < s.size) :
    s.head type < s.size := by
  obtain ⟨o, ho, -⟩ := hs.origin?_head htype
  exact lt_of_origin? ho

/-- Whatever is built after a declaration has been entered has an older declared type behind it, or
the entered type itself, unless it is a parameter. -/
theorem head_le_of_builds (h : (s.enter d).Builds t) (ht : t.WellFormed) (htype : type < t.size)
    (hkind : t.kind? type ≠ some .parameter) : t.head type ≤ s.size := by
  by_contra hlt
  have hlt := Nat.lt_of_not_le hlt
  -- a younger declared type would be a parameter of the entered type, or an instantiation
  obtain ⟨o, ho, hnot⟩ := ht.origin?_head htype
  by_cases hnew : t.head type < (s.enter d).size
  · obtain ⟨e, he⟩ := exists_get? hnew
    rcases get?_enter_new (Nat.le_of_lt hlt) he with ⟨heq, -⟩ | ⟨position, name, -, -, rfl⟩
    · exact absurd heq (Nat.ne_of_gt hlt)
    · have hparameter := h.keepsOutlines.kind?_some (kind?_of_get? he)
      rw [ht.kind?_head htype] at hparameter
      exact hkind hparameter
  · obtain ⟨generic, args, isOpen, horigin⟩ := h.new _ (Nat.le_of_not_lt hnew) (lt_of_origin? ho)
    rw [ho] at horigin
    cases horigin
    cases hnot

theorem mem_instantiationsOf (hs : s.WellFormed) {other : TypeId} :
    other ∈ s.instantiationsOf type ↔
      ∃ args isOpen, s.origin? other = some (.instantiation type args isOpen) := by
  have horigin : (s.get? other).map Descriptor.origin = s.origin? other := rfl
  unfold instantiationsOf
  rw [List.mem_filter, horigin]
  constructor
  · rintro ⟨-, hmatch⟩
    split at hmatch
    · next generic args isOpen ho =>
      rw [beq_iff_eq] at hmatch
      exact ⟨args, isOpen, hmatch ▸ ho⟩
    · cases hmatch
  · rintro ⟨args, isOpen, ho⟩
    obtain ⟨_, -, hsound⟩ := hs.instantiation ho
    have hlt := hsound.generic_lt
    have hother := lt_of_origin? ho
    refine ⟨List.mem_range'_1.mpr ⟨Nat.le_of_lt hlt, by lia⟩, ?_⟩
    rw [ho]
    exact beq_self_eq_true type

theorem mem_arrange_instantiationsOf (hs : s.WellFormed) {other : TypeId} :
    other ∈ order.arrange s (s.instantiationsOf type) ↔
      ∃ args isOpen, s.origin? other = some (.instantiation type args isOpen) := by
  rw [ScanOrder.mem_arrange, mem_instantiationsOf hs]

/-- When the supertypes of a declared type are filled in, its instantiations become pending. -/
theorem Consistent.setSupertypes_declared (ht : t.Coherent) {e : Descriptor}
    (he : t.get? type = some e) (hnot : e.origin.isInstantiation = false) {base : Option TypeId}
    {interfaces : List TypeId} (hwf : (t.setSupertypes type base interfaces).WellFormed) :
    (t.setSupertypes type base interfaces).Consistent fun other =>
      other ∈ order.arrange (t.setSupertypes type base interfaces)
        ((t.setSupertypes type base interfaces).instantiationsOf type) := by
  have hkeeps := t.keepsOutlines_setSupertypes type base interfaces
  refine ⟨hwf, fun other hother hpending => ?_⟩
  rw [size_setSupertypes] at hother
  by_cases heq : type = other
  · subst heq
    intro e' g generic args isOpen he' horigin
    rw [get?_setSupertypes, if_pos rfl, he] at he'
    cases he'
    rw [show e.origin = _ from horigin] at hnot
    cases hnot
  refine (ht.coherent other hother id).later ht.wellFormed hkeeps ?_ ?_
  · rw [get?_setSupertypes, if_neg heq]
  · intro generic args isOpen ho
    rw [get?_setSupertypes, if_neg]
    rintro rfl
    exact hpending ((mem_arrange_instantiationsOf hwf).mpr ⟨args, isOpen, hkeeps.origin?_some ho⟩)

theorem refuse_ends {α : Type} {fault : DeclarationFault} {ok : α → Store → Prop}
    {failed : Store → Prop} (h : failed s) : (refuse type fault).Ends s ok failed :=
  Ends.bind (ends_get (ends_throw h))

section Supertypes

variable {scope : Scope}

/-- The base type of a declaration is a class, and interfaces have none. -/
theorem declaredBase_ends (hs : s.Consistent pending) (hscope : ∀ entry ∈ scope, entry.2 < s.size)
    (hbase : d.kind = .interface → d.base = none) :
    (declaredBase type scope d).Ends s
      (fun base t => s.Advances pending t ∧ (∀ b, base = some b → t.kind? b = some .classType) ∧
        (d.kind = .interface → base = none))
      fun t => s.Advances pending t := by
  unfold declaredBase
  split
  · next text htext =>
    refine Ends.bind (Ends.bind ((readTypeIn_ends hs hscope text).mono ?_ fun _ => id))
    rintro b t ⟨ht, hb⟩
    obtain ⟨e, he⟩ := exists_get? hb
    refine Ends.bind (ends_descriptor_of_get? he ?_)
    split
    · exact refuse_ends ht
    next hclass =>
    split
    · exact refuse_ends ht
    refine ends_pure (ends_pure ⟨ht, ?_, ?_⟩)
    · intro b' hb'
      cases hb'
      rw [kind?_of_get? he]
      simpa [Descriptor.isClass] using hclass
    · intro hinterface
      rw [hbase hinterface] at htext
      cases htext
  · refine Ends.bind (ends_get (ends_pure ⟨hs.advances_self, ?_, ?_⟩))
    · intro b hb
      unfold impliedBase at hb
      split at hb
      · exact (hs.wellFormed.roles.root b (Option.filter_eq_some_iff.mp hb).1).1
      · exact (hs.wellFormed.roles.valueTypeRoot b hb).1
      · cases hb
      · cases hb
    · intro hinterface
      rw [hinterface]
      rfl

/-- An interface of a declaration is one. -/
theorem declaredInterface_ends (hs : s.Consistent pending)
    (hscope : ∀ entry ∈ scope, entry.2 < s.size) (text : String) :
    (declaredInterface type scope text).Ends s
      (fun i t => s.Advances pending t ∧ t.kind? i = some .interface)
      fun t => s.Advances pending t := by
  refine Ends.bind ((readTypeIn_ends hs hscope text).mono ?_ fun _ => id)
  rintro i t ⟨ht, hi⟩
  obtain ⟨e, he⟩ := exists_get? hi
  refine Ends.bind (ends_descriptor_of_get? he ?_)
  split
  · next hinterface =>
    refine ends_pure ⟨ht, ?_⟩
    rw [kind?_of_get? he]
    simpa [Descriptor.isInterface] using hinterface
  · exact Ends.bind (ends_get (refuse_ends ht))

/-- The interfaces of a declaration are interfaces. -/
theorem declaredInterfaces_ends (hs : s.Consistent pending)
    (hscope : ∀ entry ∈ scope, entry.2 < s.size) (texts : List String) :
    (texts.mapM (declaredInterface type scope)).Ends s
      (fun interfaces t => s.Advances pending t ∧ ∀ i ∈ interfaces, t.kind? i = some .interface)
      fun t => s.Advances pending t := by
  have hall : (texts.mapM (declaredInterface type scope)).Ends s
      (fun interfaces t => t.Consistent pending ∧ s.Builds t ∧
        List.Forall₂ (fun _ i => t.kind? i = some .interface) texts interfaces)
      fun t => s.Advances pending t := by
    refine Build.ends_mapM Builds (fun t ht => ht.wellFormed.closed.builds_refl)
      (fun h h' => h.trans h') ?_ hs ?_
    · exact fun t u text i _ htu hi => htu.keepsOutlines.kind?_some hi
    · intro text _ t ht hst
      have hscope' : ∀ entry ∈ scope, entry.2 < t.size := fun entry hentry =>
        Nat.lt_of_lt_of_le (hscope entry hentry) hst.size_le
      refine (declaredInterface_ends ht hscope' text).mono ?_ ?_
      · exact fun i u hu => ⟨hu.1.consistent, hu.1.builds, hu.2⟩
      · exact fun u hu => ⟨hu.consistent, hst.trans hu.builds⟩
  refine hall.mono ?_ fun _ => id
  rintro interfaces t ⟨ht, hst, hkinds⟩
  refine ⟨⟨ht, hst⟩, fun i hi => ?_⟩
  obtain ⟨position, hposition, rfl⟩ := List.getElem_of_mem hi
  exact hkinds.get (hkinds.length_eq ▸ hposition) hposition

end Supertypes

/-- Filling in the supertypes of all pending instantiations of a new definition leaves none pending,
and does not touch any other type. -/
theorem fillSupertypes_ends {levels : Nat} (hnew : s.size ≤ type) :
    ∀ {types : List TypeId} {t : Store}, t.Consistent (· ∈ types) → s.Grows t →
      (∀ other ∈ types, ∃ args isOpen, t.origin? other = some (.instantiation type args isOpen)) →
      (types.forM (substituteSupertypes (instantiateWithin levels) type)).Ends t
        (fun _ u => u.Coherent ∧ s.Grows u ∧ t.KeepsOutlines u ∧
          ∀ other < t.size, other ∉ types → u.get? other = t.get? other) fun u => s.Grows u := by
  intro types t ht hst hinst
  -- those still to come are the ones that are pending
  refine (Build.ends_forM (fun rest u => u.Consistent (· ∈ rest) ∧ s.Grows u ∧ t.KeepsOutlines u ∧
    (∀ other ∈ rest, other ∈ types ∧
      ∃ args isOpen, u.origin? other = some (.instantiation type args isOpen)) ∧
    ∀ other < t.size, other ∉ types → u.get? other = t.get? other)
    ?_ ⟨ht, hst, .refl t, fun other hother => ⟨hother, hinst other hother⟩,
      fun _ _ _ => rfl⟩).mono ?_ fun _ => id
  · rintro other rest u ⟨hu, hsu, htu, horigins, hsame⟩
    obtain ⟨hmem, args, isOpen, ho⟩ := horigins other List.mem_cons_self
    refine (substituteSupertypes_ends (instantiateWithin_applies levels _) hu
      (fun x hx => (List.mem_cons.mp hx).symm) ⟨args, isOpen, ho⟩).mono ?_
      fun v hv => hsu.trans hv.grows
    rintro - v ⟨hv, w, base, interfaces, hw, rfl⟩
    have hlt : type < other := by
      obtain ⟨_, -, hsound⟩ := hu.wellFormed.instantiation ho
      exact hsound.generic_lt
    have hkeeps := hw.keepsOutlines.trans (w.keepsOutlines_setSupertypes other base interfaces)
    refine ⟨hv, (hsu.trans hw.grows).setSupertypes (Nat.le_of_lt (Nat.lt_of_le_of_lt hnew hlt)) base
      interfaces, htu.trans hkeeps, fun x hx => ?_, fun x hx hnot => ?_⟩
    · obtain ⟨hmem', args', isOpen', ho'⟩ := horigins x (List.mem_cons_of_mem _ hx)
      exact ⟨hmem', args', isOpen', hkeeps.origin?_some ho'⟩
    · have hne : other ≠ x := fun heq => hnot (heq ▸ hmem)
      rw [get?_setSupertypes, if_neg hne, hw.grows.get?_eq (Nat.lt_of_lt_of_le hx htu.size_le),
        hsame x hx hnot]
  · rintro - u ⟨hu, hsu, htu, -, hsame⟩
    exact ⟨hu.weaken fun x hx => (List.not_mem_nil hx).elim, hsu, htu, hsame⟩

/-- The entered type is still as it was when nothing but instantiations has been added. -/
theorem get?_entered (hu : (s.enter d).Advances (fun _ => False) u) :
    u.get? s.size = some (s.entered d) := by
  have hsize : s.size < (s.enter d).size := by rw [size_enter]; omega
  exact (hu.builds.grows.get?_eq hsize).trans (s.get?_enter_own d)

/-- The store is well-formed with the supertypes of the entered type. -/
theorem wellFormed_setSupertypes_entered (hkind : d.kind ≠ .parameter) {base : Option TypeId}
    {interfaces : List TypeId} (hu : (s.enter d).Advances (fun _ => False) u)
    (hbase : ∀ b, base = some b → u.kind? b = some .classType)
    (hinterfaces : ∀ i ∈ interfaces, u.kind? i = some .interface)
    (hnone : d.kind = .interface → base = none) :
    (u.setSupertypes s.size base interfaces.eraseDups).WellFormed := by
  have hinterfaces' : ∀ i ∈ interfaces.eraseDups, u.kind? i = some .interface := fun i hi =>
    hinterfaces i (List.mem_eraseDups.mp hi)
  refine hu.consistent.wellFormed.setSupertypes (get?_entered hu) hkind hbase hinterfaces' hnone ?_
  -- what the supertypes are built from was there when the type was entered
  intro _ x hx
  rcases List.mem_append.mp hx with hb | hi
  · have hb' := hbase x (Option.mem_toList.mp hb)
    exact head_le_of_builds hu.builds hu.consistent.wellFormed (lt_of_kind? hb') (by rw [hb']; simp)
  · have hi' := hinterfaces' x hi
    exact head_le_of_builds hu.builds hu.consistent.wellFormed (lt_of_kind? hi') (by rw [hi']; simp)

section Complete

variable (hs : s.Coherent) (hkind : d.kind ≠ .parameter)
  (hnew : s.qualifiedNames[(d.qualifiedName, d.parameters.length)]? = none)

include hs hkind hnew

/-- Once the supertypes of an entered type have been found, they are set, and so are those of its
instantiations. -/
theorem completeSupertypes_ends {base : Option TypeId} {interfaces : List TypeId}
    (hu : (s.enter d).Advances (fun _ => False) u)
    (hbase : ∀ b, base = some b → u.kind? b = some .classType)
    (hinterfaces : ∀ i ∈ interfaces, u.kind? i = some .interface)
    (hnone : d.kind = .interface → base = none) :
    (do
      modify fun s' => s'.setSupertypes s.size base interfaces.eraseDups
      let s' ← get
      (order.arrange s' (s'.instantiationsOf s.size)).forM
        (substituteSupertypes (instantiateWithin maxInstantiationDepth) s.size) : Build Unit).Ends u
      (fun _ t => t.Coherent ∧ s.Grows t ∧ u.KeepsOutlines t ∧ t.get? s.size =
        some { s.entered d with base := base, interfaces := interfaces.eraseDups })
      fun t => s.Grows t := by
  have hgrows : s.Grows (s.enter d) := hs.wellFormed.closed.grows_enter hnew
  have hbuilds := hu.builds
  have hown := get?_entered hu
  have hwf := wellFormed_setSupertypes_entered hkind hu hbase hinterfaces hnone
  refine Ends.bind (ends_modify ?_)
  refine Ends.bind (ends_get ?_)
  refine (fillSupertypes_ends (Nat.le_refl s.size) (hu.consistent.setSupertypes_declared hown
    (s.isInstantiation_entered d) hwf)
    ((hgrows.trans hbuilds.grows).setSupertypes (Nat.le_refl s.size) base interfaces.eraseDups)
    fun other hother => (mem_arrange_instantiationsOf hwf).mp hother).mono ?_ fun _ => id
  rintro - v ⟨hv, hsv, huv, hsame⟩
  have hkeeps := u.keepsOutlines_setSupertypes s.size base interfaces.eraseDups
  refine ⟨hv, hsv, hkeeps.trans huv, ?_⟩
  -- the entered type is no instantiation of itself
  have hnot : s.size ∉ order.arrange (u.setSupertypes s.size base interfaces.eraseDups)
      ((u.setSupertypes s.size base interfaces.eraseDups).instantiationsOf s.size) := by
    intro hmem
    obtain ⟨args, isOpen, ho⟩ := (mem_arrange_instantiationsOf hwf).mp hmem
    obtain ⟨_, -, hsound⟩ := hwf.instantiation ho
    exact absurd hsound.generic_lt (Nat.lt_irrefl _)
  rw [hsame s.size (by rw [size_setSupertypes]; exact lt_of_get? hown) hnot, get?_setSupertypes,
    if_pos rfl, hown, Option.map_some]

/-- Resolving the supertypes of an entered type leaves a coherent store with the same outlines; a
failure leaves nothing but growth. -/
theorem resolveSupertypes_ends (hbase : d.kind = .interface → d.base = none) :
    (resolveSupertypes order s.size d).Ends (s.enter d)
      (fun _ t => t.Coherent ∧ s.Grows t ∧ (s.enter d).KeepsOutlines t) fun t => s.Grows t := by
  have hgrows : s.Grows (s.enter d) := hs.wellFormed.closed.grows_enter hnew
  have hscope := s.lt_of_mem_scope d
  refine Ends.bind ((declaredBase_ends (hs.enter hkind hnew) hscope hbase).mono ?_ fun t ht =>
    hgrows.trans ht.builds.grows)
  rintro base t ⟨ht, hbaseKind, hnone⟩
  have hscope' : ∀ entry ∈ d.parameters.zip (s.nextParameters d), entry.2 < t.size :=
    fun entry hentry => Nat.lt_of_lt_of_le (hscope entry hentry) ht.builds.size_le
  refine Ends.bind ((declaredInterfaces_ends ht.consistent hscope' d.interfaces).mono ?_ fun u hu =>
    hgrows.trans (ht.builds.trans hu.builds).grows)
  rintro interfaces u ⟨hu, hkinds⟩
  refine (completeSupertypes_ends hs hkind hnew (ht.trans hu) (fun b hb =>
    hu.builds.keepsOutlines.kind?_some (hbaseKind b hb)) hkinds hnone).mono ?_ fun _ => id
  rintro - v ⟨hv, hsv, huv, -⟩
  exact ⟨hv, hsv, (ht.trans hu).builds.keepsOutlines.trans huv⟩

end Complete

/-! ## The operations as a whole -/

/-- A declaration without faults is not one of a parameter, and only classes name a base. -/
theorem kind_of_fault?_eq_none (h : d.fault? = none) :
    d.kind ≠ .parameter ∧ (d.kind = .interface → d.base = none) := by
  unfold Declaration.fault? at h
  split at h
  · cases h
  split at h
  · cases h
  next hparameter =>
  split at h
  · cases h
  split at h
  · cases h
  next hbase =>
  refine ⟨hparameter, fun hinterface => ?_⟩
  by_contra hsome
  refine hbase ⟨Option.isSome_iff_ne_none.mpr hsome, ?_⟩
  rw [hinterface]
  exact Kind.noConfusion

/-- A name that was free is free after names have been met. -/
theorem UnchangedButNames.qualifiedNames_eq_none (h : s.UnchangedButNames t) {key : String × Nat}
    (hfree : ¬ s.qualifiedNames.contains key = true) : t.qualifiedNames[key]? = none := by
  rw [h.eq]
  exact Std.ExtTreeMap.getElem?_eq_none_of_contains_eq_false (Bool.eq_false_iff.mpr hfree)

/-- A declaration is refused, or enters its type into a store that has only met some names more, and
goes on to the supertypes. What it leaves is unchanged if it fails, as it is done as a whole. -/
theorem declare_ends_of {ok : TypeId → Store → Prop}
    (h : ∀ u, d.fault? = none → s.UnchangedButNames u →
      u.qualifiedNames[(d.qualifiedName, d.parameters.length)]? = none →
      (resolveSupertypes order u.size d).Ends (u.enter d) (fun _ v => ok u.size v)
        fun v => u.Grows v) :
    (declare d order).Ends s ok fun t => s.UnchangedButNames t := by
  unfold declare
  split
  · exact ends_throw (.refl s)
  next hfault =>
  refine Ends.bind (meet_ends s _ fun t hst => ?_)
  refine Ends.bind (ends_get ?_)
  split
  · exact ends_throw hst
  next hnew =>
  refine Ends.bind (meet_ends t _ fun u htu => ?_)
  have hsu := hst.trans htu
  refine (Build.ends_atomic ?_).mono (fun _ _ => id) fun v hv => hsu.trans hv
  refine Ends.bind (ends_get (Ends.bind (ends_set (Ends.bind ?_))))
  exact (h u hfault hsu (htu.qualifiedNames_eq_none hnew)).mono (fun _ v hv => ends_pure hv) fun _ => id

/-- Declaring adds to the store, or leaves it unchanged. -/
theorem declare_ends (hs : s.Coherent) :
    (declare d order).Ends s (fun _ t => t.Coherent ∧ s.Grows t)
      fun t => s.UnchangedButNames t := by
  refine declare_ends_of fun u hfault hsu hnew => ?_
  obtain ⟨hkind, hbase⟩ := kind_of_fault?_eq_none hfault
  refine (resolveSupertypes_ends (hs.unchangedButNames hsu) hkind hnew hbase).mono ?_ fun _ => id
  rintro - v ⟨hv, huv, -⟩
  exact ⟨hv, (hsu.grows hs.wellFormed.closed).trans huv⟩

/-- Other keywords and roles do not matter, as long as they fit the types. -/
theorem Consistent.of_same_types (hs : s.Consistent pending) (htypes : t.types = s.types)
    (hinstantiations : t.instantiations = s.instantiations)
    (hfree : t.freeParameters = s.freeParameters) (hclosed : t.Closed) (hroles : t.RolesFit)
    (hnames : t.NamesFit) : t.Consistent pending ∧ s.KeepsOutlines t := by
  have hget : ∀ other, t.get? other = s.get? other := fun other => by rw [get?, get?, htypes]
  have hkeeps : s.KeepsOutlines t :=
    ⟨fun other _ => by rw [outline?, outline?, hget], fun _ _ h => hinstantiations ▸ h,
      fun _ _ h => hfree ▸ h⟩
  have hsize : t.size = s.size := by rw [size, size, htypes]
  have hwf : t.WellFormed :=
    { closed := hclosed
      sound := fun other e he => by
        rw [hget] at he
        exact hkeeps.soundAt (lt_of_get? he) (hs.wellFormed.sound other e he)
      registered := fun generic args other hother => by
        rw [hinstantiations] at hother
        obtain ⟨isOpen, ho⟩ := hs.wellFormed.registered generic args other hother
        exact ⟨isOpen, hkeeps.origin?_some ho⟩
      free := fun name other hother => by
        rw [hfree] at hother
        exact hkeeps.origin?_some (hs.wellFormed.free name other hother)
      roles := hroles
      names := hnames }
  refine ⟨hs.later hwf hkeeps (fun other _ _ => hget other) ?_ ?_, hkeeps⟩
  · exact fun other _ hor hnot => absurd hor (not_or_intro hnot (not_not_intro (hget other)))
  · exact fun other hle hlt => absurd hlt (by rw [hsize]; exact Nat.not_lt.mpr hle)

/-- The store with one more keyword. -/
def withKeyword (s : Store) (keyword : String) (type : TypeId) : Store :=
  { s with
    aliases := s.aliases.insert keyword type
    keywords := s.keywords.insertIfNew type keyword }

theorem Closed.withKeyword (hs : s.Closed) (htype : type < s.size) (keyword : String) :
    (s.withKeyword keyword type).Closed := by
  refine ⟨hs.simpleNames, hs.qualifiedNames, ?_, ?_, hs.instantiations, hs.freeParameters⟩
  · intro other other' hother
    unfold Store.withKeyword at hother
    rw [Std.ExtTreeMap.getElem?_insert] at hother
    split at hother
    · cases hother
      exact htype
    · exact hs.aliases other other' hother
  · intro other text hother
    unfold Store.withKeyword at hother
    rw [Std.ExtTreeMap.getElem?_insertIfNew] at hother
    split at hother
    · next hnew =>
      rw [← Std.LawfulEqCmp.eq_of_compare hnew.1]
      exact htype
    · exact hs.keywords other text hother

/-- A new keyword stands for the type that it may be shown for. -/
theorem NamesFit.withKeyword (hs : s.NamesFit) {keyword : String}
    (hnew : s.aliases[keyword]? = none) (type : TypeId) :
    (s.withKeyword keyword type).NamesFit where
  keyword other text htext := by
    unfold Store.withKeyword at htext ⊢
    rw [Std.ExtTreeMap.getElem?_insertIfNew] at htext
    rw [Std.ExtTreeMap.getElem?_insert]
    split at htext
    · next hother =>
      cases htext
      rw [if_pos Std.ReflCmp.compare_self, ← Std.LawfulEqCmp.eq_of_compare hother.1]
    · have hold := hs.keyword other text htext
      rw [if_neg, hold]
      intro hkeyword
      rw [← Std.LawfulEqCmp.eq_of_compare hkeyword, hnew] at hold
      cases hold
  declared := hs.declared

/-- Registering a keyword leaves a coherent store. -/
theorem addAlias_ends (hs : s.Coherent) (keyword : String) :
    (addAlias keyword type).Ends s (fun _ t => t.Coherent ∧ s.KeepsOutlines t ∧ s.KeepsTypes t)
      fun t => s.UnchangedButNames t := by
  refine Ends.bind (ends_descriptor ?_ (.refl s))
  intro e he
  refine Ends.bind (meet_ends s _ fun t hst => ?_)
  refine Ends.bind (ends_get ?_)
  split
  · exact ends_throw hst
  · next hnew =>
    have ht := hs.unchangedButNames hst
    have hnew' : t.aliases[keyword]? = none :=
      Std.ExtTreeMap.getElem?_eq_none_of_contains_eq_false (Bool.eq_false_iff.mpr hnew)
    have htype : type < t.size := by
      rw [hst.size_eq]
      exact lt_of_get? he
    obtain ⟨hroot, hvalueTypeRoot, hnullable⟩ := ht.wellFormed.roles
    obtain ⟨hcoherent, hkeeps⟩ := ht.of_same_types (t := t.withKeyword keyword type) rfl rfl rfl
      (ht.wellFormed.closed.withKeyword htype keyword) ⟨hroot, hvalueTypeRoot, hnullable⟩
      (ht.wellFormed.names.withKeyword hnew' type)
    have htypes : t.KeepsTypes (t.withKeyword keyword type) := ⟨fun _ => rfl, rfl⟩
    exact ends_set ⟨hcoherent, hst.keepsOutlines.trans hkeeps, hst.keepsTypes.trans htypes⟩

/-- A type that is admitted to a role is fit for it. -/
theorem WellFormed.rolesFit_give (hs : s.WellFormed) {role : Role} {e : Descriptor}
    (he : s.get? type = some e) (hadmits : role.admits e = true) :
    RolesFit { s with roles := s.roles.give type role } := by
  have horigin := (hs.sound type e he).origin
  have hkind := kind?_of_get? he
  have ho := origin?_of_get? he
  have hclass : e.isClass = true → e.isGeneric = false →
      s.kind? type = some .classType ∧ s.origin? type = some .declared := by
    intro hclass hgeneric
    have hkind' : e.kind = .classType := by simpa [Descriptor.isClass] using hclass
    refine ⟨hkind.trans (congrArg some hkind'), ?_⟩
    unfold SoundOrigin at horigin
    cases horigin' : e.origin with
    | declared => rw [ho, horigin']
    | definition _ | instantiation _ _ _ =>
      rw [Descriptor.isGeneric, horigin'] at hgeneric
      cases hgeneric
    | typeParameter _ _ | methodParameter =>
      rw [horigin'] at horigin
      rw [hkind'] at horigin
      cases horigin.1
  obtain ⟨hroot, hvalueTypeRoot, hnullable⟩ := hs.roles
  cases role with
  | root =>
    simp only [Role.admits, Bool.and_eq_true, Bool.not_eq_true'] at hadmits
    refine ⟨fun other hother => ?_, hvalueTypeRoot, hnullable⟩
    cases hother
    exact hclass hadmits.1 hadmits.2
  | valueTypeRoot =>
    simp only [Role.admits, Bool.and_eq_true, Bool.not_eq_true'] at hadmits
    refine ⟨hroot, fun other hother => ?_, hnullable⟩
    cases hother
    exact hclass hadmits.1 hadmits.2
  | nullable =>
    simp only [Role.admits, Bool.and_eq_true, beq_iff_eq] at hadmits
    refine ⟨hroot, hvalueTypeRoot, fun other hother => ?_⟩
    cases hother
    obtain ⟨⟨hvalue, hdefinition⟩, harity⟩ := hadmits
    have hkind' : e.kind = .valueType := by simpa [Descriptor.isValueType] using hvalue
    refine ⟨hkind.trans (congrArg some hkind'), ?_⟩
    cases horigin' : e.origin with
    | definition params =>
      rw [Descriptor.arity, Descriptor.arguments, horigin'] at harity
      dsimp only at harity
      obtain ⟨param, hparam⟩ := List.length_eq_one_iff.mp harity
      exact ⟨param, ho.trans (by rw [horigin', hparam])⟩
    | declared | instantiation _ _ _ | typeParameter _ _ | methodParameter =>
      rw [Descriptor.isDefinition, horigin'] at hdefinition
      cases hdefinition

/-- Giving a role leaves a coherent store. -/
theorem giveRole_ends (hs : s.Coherent) (role : Role) :
    (giveRole role type).Ends s (fun _ t => t.Coherent ∧ s.KeepsOutlines t)
      fun t => s.UnchangedButNames t := by
  refine Ends.bind (ends_descriptor ?_ (.refl s))
  intro e he
  split
  · next hadmits =>
    have hclosed := hs.wellFormed.closed
    exact ends_modify (hs.of_same_types rfl rfl rfl
      ⟨hclosed.1, hclosed.2, hclosed.3, hclosed.4, hclosed.5, hclosed.6⟩
      (hs.wellFormed.rolesFit_give he hadmits)
      ⟨hs.wellFormed.names.keyword, hs.wellFormed.names.declared⟩)
  · exact refuse_ends (.refl s)

end NominalTypes.Store
