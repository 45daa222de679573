import NominalTypes.Proofs.Building.Growth
import NominalTypes.Store.Declare

/-!
# Outlines of types

The supertypes of a type are filled in after its creation. All the rest of a descriptor is fixed
from the beginning, and most of what is said about a store depends on nothing else.

- `Store.outline?`: a descriptor without its supertypes.
- `Store.origin?`, `Store.kind?`, `Store.isOpen`, `Store.head`: what an outline tells.
- `Store.KeepsOutlines`: the later store knows the types of the earlier one by the same outlines.
  Growth keeps them (`Store.Grows.keepsOutlines`), and so does filling in supertypes
  (`Store.keepsOutlines_setSupertypes`).
- `Store.KeepsTypes`: the later store knows them by the same descriptors, supertypes included.
-/

namespace NominalTypes.Store

/-- What is fixed of a type when it is created. -/
def outline? (s : Store) (type : TypeId) : Option Descriptor :=
  (s.get? type).map fun d => { d with base := none, interfaces := [] }

/-- Where a type comes from. -/
def origin? (s : Store) (type : TypeId) : Option Origin := (s.get? type).map Descriptor.origin

/-- The sort of a type. -/
def kind? (s : Store) (type : TypeId) : Option Kind := (s.get? type).map Descriptor.kind

/-- The type is a generic parameter or has one in its arguments. -/
def isOpen (s : Store) (type : TypeId) : Bool := (s.get? type).any Descriptor.isOpen

theorem origin?_eq_outline? (s : Store) (type : TypeId) :
    s.origin? type = (s.outline? type).map Descriptor.origin := by
  unfold origin? outline?
  rw [Option.map_map]
  rfl

theorem kind?_eq_outline? (s : Store) (type : TypeId) :
    s.kind? type = (s.outline? type).map Descriptor.kind := by
  unfold kind? outline?
  rw [Option.map_map]
  rfl

theorem isOpen_eq_outline? (s : Store) (type : TypeId) :
    s.isOpen type = (s.outline? type).any Descriptor.isOpen := by
  unfold isOpen outline?
  cases s.get? type <;> rfl

theorem definitionOf?_eq_origin? (s : Store) (type : TypeId) :
    s.definitionOf? type =
      match s.origin? type with
      | some (.definition _) => some type
      | some (.instantiation definition _ _) => some definition
      | _ => none := rfl

/-- The declared type behind a type: its definition if it is generic, otherwise the type itself. -/
def head (s : Store) (type : TypeId) : TypeId := (s.definitionOf? type).getD type

theorem head_of_definitionOf? {s : Store} {type definition : TypeId}
    (h : s.definitionOf? type = some definition) : s.head type = definition := by
  rw [head, h]
  rfl

/-! ## Known types -/

theorem get?_eq_none {s : Store} {type : TypeId} (h : ¬ type < s.size) : s.get? type = none :=
  Array.getElem?_eq_none (Nat.le_of_not_lt h)

theorem lt_of_get? {s : Store} {type : TypeId} {d : Descriptor} (h : s.get? type = some d) :
    type < s.size := by
  by_contra hlt
  rw [get?_eq_none hlt] at h
  cases h

theorem exists_get? {s : Store} {type : TypeId} (h : type < s.size) :
    ∃ d, s.get? type = some d := ⟨s.types[type], Array.getElem?_eq_getElem h⟩

theorem lt_of_origin? {s : Store} {type : TypeId} {o : Origin} (h : s.origin? type = some o) :
    type < s.size := by
  obtain ⟨d, hd, -⟩ := Option.map_eq_some_iff.mp h
  exact lt_of_get? hd

theorem lt_of_kind? {s : Store} {type : TypeId} {k : Kind} (h : s.kind? type = some k) :
    type < s.size := by
  obtain ⟨d, hd, -⟩ := Option.map_eq_some_iff.mp h
  exact lt_of_get? hd

/-- A type that is built from a definition is known. -/
theorem lt_of_definitionOf? {s : Store} {type definition : TypeId}
    (h : s.definitionOf? type = some definition) : type < s.size := by
  rw [definitionOf?_eq_origin?] at h
  split at h
  · next ho => exact lt_of_origin? ho
  · next ho => exact lt_of_origin? ho
  · cases h

theorem origin?_of_get? {s : Store} {type : TypeId} {d : Descriptor} (h : s.get? type = some d) :
    s.origin? type = some d.origin := by rw [origin?, h]; rfl

theorem kind?_of_get? {s : Store} {type : TypeId} {d : Descriptor} (h : s.get? type = some d) :
    s.kind? type = some d.kind := by rw [kind?, h]; rfl

theorem isParameter_iff {s : Store} {type : TypeId} :
    s.isParameter type = true ↔ s.kind? type = some .parameter := by
  unfold isParameter kind?
  cases s.get? type with
  | none => simp
  | some d => simp [Descriptor.isParameter]

theorem isInterface_iff {s : Store} {type : TypeId} :
    s.isInterface type = true ↔ s.kind? type = some .interface := by
  unfold isInterface kind?
  cases s.get? type with
  | none => simp
  | some d => simp [Descriptor.isInterface]

/-- Asking for the descriptor of a type tells whether the type is known. -/
theorem ends_descriptor {s : Store} {type : TypeId} {ok : Descriptor → Store → Prop}
    {failed : Store → Prop} (hok : ∀ d, s.get? type = some d → ok d s) (hfailed : failed s) :
    (Build.ask (·.descriptor type)).Ends s ok failed := by
  refine Build.ends_ask ?_ hfailed
  intro d hask
  rw [descriptor] at hask
  split at hask
  · next hd =>
    cases hask
    exact hok d hd
  · cases hask

/-- The descriptor of a known type can be had. -/
theorem ends_descriptor_of_get? {s : Store} {type : TypeId} {d : Descriptor}
    (hd : s.get? type = some d) {ok : Descriptor → Store → Prop} {failed : Store → Prop}
    (h : ok d s) : (Build.ask (·.descriptor type)).Ends s ok failed := by
  refine Build.ends_ask_of_ok ?_ h
  rw [descriptor, hd]

/-! ## What later stores keep -/

/-- The later store knows the types of the earlier one by the same outlines, and finds the same
instantiations and free parameters. -/
structure KeepsOutlines (s t : Store) : Prop where
  outline : ∀ type, type < s.size → t.outline? type = s.outline? type
  instantiations : ∀ (key : TypeId × List TypeId) (type : TypeId),
    s.instantiations[key]? = some type → t.instantiations[key]? = some type
  freeParameters : ∀ (name : String) (type : TypeId),
    s.freeParameters[name]? = some type → t.freeParameters[name]? = some type

namespace KeepsOutlines

variable {s t u : Store} {type : TypeId}

theorem origin?_eq (h : s.KeepsOutlines t) (htype : type < s.size) :
    t.origin? type = s.origin? type := by
  rw [origin?_eq_outline?, origin?_eq_outline?, h.outline type htype]

theorem origin?_some (h : s.KeepsOutlines t) {o : Origin} (ho : s.origin? type = some o) :
    t.origin? type = some o := (h.origin?_eq (lt_of_origin? ho)).trans ho

theorem kind?_eq (h : s.KeepsOutlines t) (htype : type < s.size) :
    t.kind? type = s.kind? type := by
  rw [kind?_eq_outline?, kind?_eq_outline?, h.outline type htype]

theorem kind?_some (h : s.KeepsOutlines t) {k : Kind} (hk : s.kind? type = some k) :
    t.kind? type = some k := (h.kind?_eq (lt_of_kind? hk)).trans hk

theorem isParameter (h : s.KeepsOutlines t) (htype : s.isParameter type = true) :
    t.isParameter type = true :=
  isParameter_iff.mpr (h.kind?_some (isParameter_iff.mp htype))

theorem isOpen_eq (h : s.KeepsOutlines t) (htype : type < s.size) :
    t.isOpen type = s.isOpen type := by
  rw [isOpen_eq_outline?, isOpen_eq_outline?, h.outline type htype]

theorem head_eq (h : s.KeepsOutlines t) (htype : type < s.size) :
    t.head type = s.head type := by
  unfold head
  rw [definitionOf?_eq_origin?, definitionOf?_eq_origin?, h.origin?_eq htype]

theorem size_le (h : s.KeepsOutlines t) : s.size ≤ t.size := by
  by_contra hlt
  have hout := h.outline t.size (Nat.lt_of_not_le hlt)
  obtain ⟨d, hd⟩ := exists_get? (Nat.lt_of_not_le hlt)
  unfold outline? at hout
  rw [get?_eq_none (Nat.lt_irrefl _), hd] at hout
  cases hout

theorem all_lt (h : s.KeepsOutlines t) {types : List TypeId} (htypes : ∀ x ∈ types, x < s.size) :
    ∀ x ∈ types, x < t.size := fun x hx => Nat.lt_of_lt_of_le (htypes x hx) h.size_le

theorem all_isParameter (h : s.KeepsOutlines t) {types : List TypeId}
    (htypes : ∀ x ∈ types, s.isParameter x = true) : ∀ x ∈ types, t.isParameter x = true :=
  fun x hx => h.isParameter (htypes x hx)

theorem trans (h : s.KeepsOutlines t) (h' : t.KeepsOutlines u) : s.KeepsOutlines u where
  outline type htype :=
    (h'.outline type (Nat.lt_of_lt_of_le htype h.size_le)).trans (h.outline type htype)
  instantiations key type hkey := h'.instantiations key type (h.instantiations key type hkey)
  freeParameters name type hname := h'.freeParameters name type (h.freeParameters name type hname)

theorem refl (s : Store) : s.KeepsOutlines s := ⟨fun _ _ => rfl, fun _ _ => id, fun _ _ => id⟩

end KeepsOutlines

theorem Grows.keepsOutlines {s t : Store} (h : s.Grows t) : s.KeepsOutlines t where
  outline type htype := by rw [outline?, outline?, h.get?_eq htype]
  instantiations key type hkey := by
    have htable : (t.rollback s.size).instantiations = s.instantiations := by rw [h.rollback]
    rw [← htable] at hkey
    simp only [Store.rollback, Std.ExtTreeMap.getElem?_filter', Option.filter_eq_some_iff] at hkey
    exact hkey.1
  freeParameters name type hname := by
    have htable : (t.rollback s.size).freeParameters = s.freeParameters := by rw [h.rollback]
    rw [← htable] at hname
    simp only [Store.rollback, Std.ExtTreeMap.getElem?_filter', Option.filter_eq_some_iff] at hname
    exact hname.1

/-- The later store knows the types of the earlier one by the same descriptors, and the same types
have a role. -/
structure KeepsTypes (s t : Store) : Prop where
  get?_eq : ∀ {type : TypeId}, type < s.size → t.get? type = s.get? type
  roles_eq : t.roles = s.roles

namespace KeepsTypes

variable {s t u : Store}

theorem refl (s : Store) : s.KeepsTypes s := ⟨fun _ => rfl, rfl⟩

theorem size_le (h : s.KeepsTypes t) : s.size ≤ t.size := by
  by_contra hlt
  obtain ⟨d, hd⟩ := exists_get? (Nat.lt_of_not_le hlt)
  rw [← h.get?_eq (Nat.lt_of_not_le hlt), get?_eq_none (Nat.lt_irrefl _)] at hd
  cases hd

theorem trans (h : s.KeepsTypes t) (h' : t.KeepsTypes u) : s.KeepsTypes u where
  get?_eq htype :=
    (h'.get?_eq (Nat.lt_of_lt_of_le htype h.size_le)).trans (h.get?_eq htype)
  roles_eq := h'.roles_eq.trans h.roles_eq

end KeepsTypes

theorem Grows.keepsTypes {s t : Store} (h : s.Grows t) : s.KeepsTypes t := ⟨h.get?_eq, h.roles_eq⟩

theorem UnchangedButNames.keepsTypes {s t : Store} (h : s.UnchangedButNames t) :
    s.KeepsTypes t := by
  rw [h.eq]
  exact ⟨fun _ => rfl, rfl⟩

theorem outline?_setSupertypes (s : Store) (type other : TypeId) (base : Option TypeId)
    (interfaces : List TypeId) :
    (s.setSupertypes type base interfaces).outline? other = s.outline? other := by
  unfold outline?
  rw [get?_setSupertypes]
  split
  · rw [Option.map_map]
    rfl
  · rfl

theorem keepsOutlines_setSupertypes (s : Store) (type : TypeId) (base : Option TypeId)
    (interfaces : List TypeId) : s.KeepsOutlines (s.setSupertypes type base interfaces) :=
  ⟨fun other _ => s.outline?_setSupertypes type other base interfaces, fun _ _ => id,
    fun _ _ => id⟩

theorem UnchangedButNames.keepsOutlines {s t : Store} (h : s.UnchangedButNames t) :
    s.KeepsOutlines t := by
  rw [h.eq]
  exact ⟨fun _ _ => rfl, fun _ _ => id, fun _ _ => id⟩

end NominalTypes.Store
