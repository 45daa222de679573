import NominalTypes.Proofs.Building.Registry

/-!
# What a declaration leaves

A successful declaration enters its type, reads the expressions of its supertypes one after the
other, and sets what they denote. Nothing after that touches the supertypes of the type, so its
descriptor can be told from the types as which the expressions have been read.

- `Store.ReadBetween`: a text that has been read on the way from one store to another.
- `Store.resolveSupertypes_reads`: the supertypes of an entered type are what its texts denote.
- `Store.Introduces`: a type that has been declared, and where its supertypes come from.
- `Store.declare_introduces`: every successful declaration introduces its type.
-/

namespace NominalTypes

/-- That an operation gives an answer may be kept in mind. -/
theorem Build.ends_self {α : Type} (operation : Build α) (s : Store) :
    operation.Ends s (fun a t => operation s = (.ok a, t)) fun _ => True := by
  unfold Ends
  split
  · next a t hrun => exact hrun
  · trivial

/-- The texts of the supertypes that a declaration names. -/
def Declaration.supertypeTexts (d : Declaration) : List String := d.base.toList ++ d.interfaces

namespace Store

open Build (Ends ends_pure ends_throw ends_get ends_self)

variable {s t u met : Store} {d : Declaration} {type : TypeId} {scope : Scope} {text : String}
  {order : ScanOrder}
  {base : Option TypeId} {interfaces : List TypeId}

/-! ## Reading supertypes -/

/-- A text that is read is read as an expression. -/
theorem exists_of_readTypeIn (h : readTypeIn scope text s = (.ok type, t)) :
    ∃ expr, TypeExpr.parse text = .ok expr ∧ resolveIn scope expr s = (.ok type, t) := by
  have hends : (readTypeIn scope text).Ends s
      (fun type t => ∃ expr, TypeExpr.parse text = .ok expr ∧
        resolveIn scope expr s = (.ok type, t)) fun _ => True := by
    refine Ends.bind ?_
    unfold readExpr
    split
    · next expr hparse =>
      exact ends_pure ((ends_self _ s).mono (fun _ _ hrun => ⟨expr, hparse, hrun⟩) fun _ => id)
    · exact ends_throw trivial
  exact hends.of_ok h

/-- On the way from the first store to the second one, a text has been read as a type. -/
def ReadBetween (scope : Scope) (s t : Store) (text : String) (type : TypeId) : Prop :=
  ∃ u v, s.Advances (fun _ => False) u ∧ s.SameNaming u ∧ readTypeIn scope text u = (.ok type, v) ∧
    v.KeepsOutlines t

theorem ReadBetween.later (h : ReadBetween scope s t text type) (htu : t.KeepsOutlines u) :
    ReadBetween scope s u text type := by
  obtain ⟨v, w, hsv, hnaming, hread, hwt⟩ := h
  exact ⟨v, w, hsv, hnaming, hread, hwt.trans htu⟩

theorem ReadBetween.earlier (h : ReadBetween scope t u text type)
    (hst : s.Advances (fun _ => False) t) (hnaming : s.SameNaming t) :
    ReadBetween scope s u text type := by
  obtain ⟨v, w, htv, hnaming', hread, hwu⟩ := h
  exact ⟨v, w, hst.trans htv, hnaming.trans hnaming', hread, hwu⟩

/-- The base type is the one that is named, or else the one that is implied. -/
theorem declaredBase_reads (s : Store) (type : TypeId) (scope : Scope) (d : Declaration) :
    (declaredBase type scope d).Ends s
      (fun base t => (∀ text, d.base = some text →
          ∃ b, base = some b ∧ readTypeIn scope text s = (.ok b, t)) ∧
        (d.base = none → base = s.impliedBase type d.kind))
      fun _ => True := by
  unfold declaredBase
  split
  · next text htext =>
    refine Ends.bind (Ends.bind ((ends_self (readTypeIn scope text) s).mono ?_ fun _ => id))
    intro b t hread
    refine Ends.bind (Build.ends_ask (fun described _ => ?_) trivial)
    split
    · exact refuse_ends trivial
    split
    · exact refuse_ends trivial
    refine ends_pure (ends_pure ⟨fun text' htext' => ?_, fun hnone => ?_⟩)
    · rw [htext] at htext'
      cases htext'
      exact ⟨b, rfl, hread⟩
    · rw [htext] at hnone
      cases hnone
  · next hnone =>
    refine Ends.bind (ends_get (ends_pure ⟨fun text htext => ?_, fun _ => rfl⟩))
    rw [hnone] at htext
    cases htext

/-- An interface is what its text denotes. -/
theorem declaredInterface_reads (s : Store) (type : TypeId) (scope : Scope) (text : String) :
    (declaredInterface type scope text).Ends s
      (fun i t => readTypeIn scope text s = (.ok i, t)) fun _ => True := by
  refine Ends.bind ((ends_self (readTypeIn scope text) s).mono ?_ fun _ => id)
  intro i t hread
  refine Ends.bind (Build.ends_ask (fun described _ => ?_) trivial)
  split
  · exact ends_pure hread
  · exact Ends.bind (ends_get (refuse_ends trivial))

/-- So are all interfaces of a declaration, which are read one after the other. -/
theorem declaredInterfaces_reads (hs : s.Coherent) (type : TypeId) (scope : Scope)
    (texts : List String) :
    (texts.mapM (declaredInterface type scope)).Ends s
      (fun interfaces t => s.SameNaming t ∧
        List.Forall₂ (ReadBetween scope s t) texts interfaces)
      fun _ => True := by
  have hall : (texts.mapM (declaredInterface type scope)).Ends s
      (fun interfaces t => t.Coherent ∧ (s.Advances (fun _ => False) t ∧ s.SameNaming t) ∧
        List.Forall₂ (ReadBetween scope s t) texts interfaces)
      fun _ => True := by
    refine Build.ends_mapM (fun t u => t.Advances (fun _ => False) u ∧ t.SameNaming u)
      (fun t ht => ⟨ht.advances_self, .refl t⟩)
      (fun h h' => ⟨h.1.trans h'.1, h.2.trans h'.2⟩)
      (fun t u text i _ htu hread => hread.later htu.1.builds.keepsOutlines) hs ?_
    rintro text - t ht ⟨hst, hnaming⟩
    refine ((OnlyBuilds.declaredInterface type text t ht).and
      (declaredInterface_reads t type scope text)).mono ?_ fun _ _ => trivial
    rintro i u ⟨htu, hread⟩
    exact ⟨htu.1.consistent, htu, t, u, hst, hnaming, hread, .refl u⟩
  exact hall.mono (fun _ _ ht => ⟨ht.2.1.2, ht.2.2⟩) fun _ => id

/-! ## The declared type -/

/-- The names that the expressions of a declaration may use for its parameters. -/
def scopeOf (s : Store) (d : Declaration) : Scope := d.parameters.zip (s.nextParameters d)

/-- The descriptor of a declared type has the supertypes that have been found. -/
structure HasSupertypes (s t : Store) (d : Declaration) (base : Option TypeId)
    (interfaces : List TypeId) : Prop where
  own : t.get? s.size =
    some { s.entered d with base := base, interfaces := interfaces.eraseDups }
  named : ∀ text, d.base = some text →
    ∃ b, base = some b ∧ ReadBetween (s.scopeOf d) (s.enter d) t text b
  implied : d.base = none → base = s.impliedBase s.size d.kind
  listed : List.Forall₂ (ReadBetween (s.scopeOf d) (s.enter d) t) d.interfaces interfaces

theorem exists_mem_of_forall₂ {α β : Type} {r : α → β → Prop} {as : List α} {bs : List β}
    (h : List.Forall₂ r as bs) : ∀ a ∈ as, ∃ b ∈ bs, r a b := by
  induction h with
  | nil => exact fun _ ha => nomatch ha
  | cons hab _ ih =>
    refine List.forall_mem_cons.mpr ⟨⟨_, List.mem_cons_self, hab⟩, fun a ha => ?_⟩
    obtain ⟨b, hb, hab⟩ := ih a ha
    exact ⟨b, List.mem_cons_of_mem _ hb, hab⟩

namespace HasSupertypes

variable (h : s.HasSupertypes t d base interfaces)

include h

/-- There is a supertype for each text. -/
theorem exists_supertype (htext : text ∈ d.supertypeTexts) : ∃ e super, t.get? s.size = some e ∧
    super ∈ e.supertypes ∧ ReadBetween (s.scopeOf d) (s.enter d) t text super := by
  rcases List.mem_append.mp htext with hbase | hinterface
  · obtain ⟨b, hb, hread⟩ := h.named text (Option.mem_toList.mp hbase)
    exact ⟨_, b, h.own, Descriptor.mem_supertypes_of_base hb, hread⟩
  · obtain ⟨i, hi, hread⟩ := exists_mem_of_forall₂ h.listed text hinterface
    exact ⟨_, i, h.own, Descriptor.mem_supertypes_of_mem (List.mem_eraseDups.mpr hi), hread⟩

/-- There is a text for each supertype, unless it is the base type that is implied. -/
theorem exists_text {e : Descriptor} {super : TypeId} (he : t.get? s.size = some e)
    (hsuper : super ∈ e.supertypes) : s.impliedBase s.size d.kind = some super ∨
      ∃ text ∈ d.supertypeTexts, ReadBetween (s.scopeOf d) (s.enter d) t text super := by
  rw [h.own] at he
  cases he
  rcases Descriptor.mem_supertypes.mp hsuper with hbase | hinterface
  · change base = some super at hbase
    cases htext : d.base with
    | none => exact .inl (h.implied htext ▸ hbase)
    | some text =>
      obtain ⟨b, hb, hread⟩ := h.named text htext
      rw [hbase] at hb
      cases hb
      exact .inr ⟨text, List.mem_append_left _ (Option.mem_toList.mpr htext), hread⟩
  · obtain ⟨text, htext, hread⟩ := exists_mem_of_forall₂ h.listed.flip super
      (List.mem_eraseDups.mp hinterface)
    exact .inr ⟨text, List.mem_append_right _ htext, hread⟩

/-- There is an interface for each text. -/
theorem exists_interface (htext : text ∈ d.interfaces) : ∃ i e, t.get? s.size = some e ∧
    i ∈ e.interfaces ∧ ReadBetween (s.scopeOf d) (s.enter d) t text i := by
  obtain ⟨i, hi, hread⟩ := exists_mem_of_forall₂ h.listed text htext
  exact ⟨i, _, h.own, List.mem_eraseDups.mpr hi, hread⟩

end HasSupertypes

/-- The supertypes of an entered type are what its texts denote. -/
theorem resolveSupertypes_reads (hs : s.Coherent) (hkind : d.kind ≠ .parameter)
    (hbase : d.kind = .interface → d.base = none)
    (hnew : s.qualifiedNames[(d.qualifiedName, d.parameters.length)]? = none) :
    (resolveSupertypes order s.size d).Ends (s.enter d)
      (fun _ t => ∃ base interfaces, s.HasSupertypes t d base interfaces) fun _ => True := by
  have henter := hs.enter hkind hnew
  have hscope := s.lt_of_mem_scope d
  refine Ends.bind (((declaredBase_ends henter hscope hbase).and
    ((OnlyBuilds.declaredBase s.size d _ henter).and
      (declaredBase_reads (s.enter d) s.size (s.scopeOf d) d))).mono ?_ fun _ _ => trivial)
  rintro base t ⟨⟨ht, hbaseKind, hnone⟩, ⟨-, hnaming⟩, hnamed, himplied⟩
  have hscope' : ∀ entry ∈ s.scopeOf d, entry.2 < t.size := fun entry hentry =>
    Nat.lt_of_lt_of_le (hscope entry hentry) ht.builds.size_le
  refine Ends.bind (((declaredInterfaces_ends ht.consistent hscope' d.interfaces).and
    (declaredInterfaces_reads ht.consistent s.size (s.scopeOf d) d.interfaces)).mono ?_
    fun _ _ => trivial)
  rintro interfaces u ⟨⟨hu, hkinds⟩, -, hlisted⟩
  refine (completeSupertypes_ends hs hkind hnew (ht.trans hu) (fun b hb =>
    hu.builds.keepsOutlines.kind?_some (hbaseKind b hb)) hkinds hnone).mono ?_ fun _ _ => trivial
  rintro - v ⟨-, -, huv, hown⟩
  refine ⟨base, interfaces, hown, fun text htext => ?_, himplied, ?_⟩
  · obtain ⟨b, hb, hread⟩ := hnamed text htext
    exact ⟨b, hb, s.enter d, t, henter.advances_self, .refl _, hread,
      hu.builds.keepsOutlines.trans huv⟩
  · exact hlisted.imp fun _ _ hread => (hread.later huv).earlier ht hnaming

/-- What a successful declaration has done, with the supertypes of the type that it has entered. -/
structure Introduces (s : Store) (d : Declaration) (met t : Store) (base : Option TypeId)
    (interfaces : List TypeId) : Prop extends
  s.Declares d met t, met.HasSupertypes t d base interfaces

/-- Every successful declaration introduces its type. -/
theorem declare_introduces (hs : s.Coherent) (hrun : declare d order s = (.ok type, t)) :
    type = s.size ∧ ∃ met base interfaces, s.Introduces d met t base interfaces := by
  have hends : (declare d order).Ends s (fun type t => type = s.size ∧
      ∃ met base interfaces, s.Introduces d met t base interfaces)
      fun t => s.UnchangedButNames t := by
    refine declare_ends_of fun u hfault hsu hnew => ?_
    obtain ⟨hkind, hbase⟩ := kind_of_fault?_eq_none hfault
    have hu := hs.unchangedButNames hsu
    refine (((resolveSupertypes_ends hu hkind hnew hbase).and (resolveSupertypes_sameNaming
      (hu.enter hkind hnew) u.size d)).and (resolveSupertypes_reads hu hkind hbase hnew)).mono ?_
      fun _ hv => hv.1.1
    rintro - v ⟨⟨⟨-, -, houtlines⟩, hnaming⟩, base, interfaces, hsupertypes⟩
    exact ⟨hsu.size_eq, u, base, interfaces, ⟨hfault, hsu, hnew, houtlines, hnaming⟩, hsupertypes⟩
  exact hends.of_ok hrun

/-- The store that a declaration leaves is reachable. -/
theorem Reachable.of_declare (hs : s.Reachable) (hrun : declare d order s = (.ok type, t)) :
    t.Reachable := by
  have hafter : (Operation.declare d order).perform.after s = t := by
    rw [Operation.perform, Build.after_dropped, Build.after, ExceptT.run, hrun]
  exact hafter ▸ hs.step (.declare d order)

end Store

end NominalTypes
