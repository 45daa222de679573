import NominalTypes.Proofs.Assignability
import NominalTypes.Proofs.Building.AnyOrder

/-!
# Chains of assignments

A type accepts itself. If `b` accepts `a` and `c` accepts `b`, then `c` accepts `a`, unless a
nullable type is in the way: it accepts the type it wraps, but neither what that type accepts nor
what derives from it, and what accepts the nullable type need not accept the type it wraps.

| `a` | `b` | `c` | |
|-----|-----|-----|-|
| `string` | `object` | `object?` | wraps `b` and accepts nothing else but itself |
| `string` | `string?` | `ValueType` | is above the wrapper of `a`, and not above `a` |

These are the only exceptions in stores that grow from the core library, because nothing but
`ValueType` and `object` is above a nullable type there.

- `Store.CoreHierarchy`: the three types with a role, and what is above them.
- `Store.CoreHierarchy.widensTo_nullableForm`: what is above a nullable type.
- `Store.WellFormed.accepts_trans_iff`: when a chain of two assignments may be cut short.
- `Store.GrownFromCore.accepts_chain`: the main result.
-/

namespace NominalTypes.Store

variable {s t : Store} {a b c type other root base wrapper : TypeId} {distance : Nat}
  {operations : List Operation}

/-! ## The types with a role -/

/-- The three roles are taken. The nullable wrapper has the root of value types above itself and no
interface, that has the universal root above itself, and the universal root has nothing. -/
structure CoreHierarchy (s : Store) (root base wrapper : TypeId) : Prop where
  roles : s.roles = ⟨some root, some base, some wrapper⟩
  of_root : ∃ d, s.get? root = some d ∧ d.supertypes = []
  of_base : ∃ d, s.get? base = some d ∧ d.supertypes = [root]
  of_wrapper : ∃ d, s.get? wrapper = some d ∧ d.base = some base ∧ d.interfaces = []

theorem KeepsTypes.coreHierarchy (h : s.KeepsTypes t) (hs : s.CoreHierarchy root base wrapper) :
    t.CoreHierarchy root base wrapper := by
  obtain ⟨hroles, ⟨r, hr, hrs⟩, ⟨v, hv, hvs⟩, ⟨w, hw, hws⟩⟩ := hs
  exact ⟨h.roles_eq.trans hroles, ⟨r, (h.get?_eq (lt_of_get? hr)).trans hr, hrs⟩,
    ⟨v, (h.get?_eq (lt_of_get? hv)).trans hv, hvs⟩, ⟨w, (h.get?_eq (lt_of_get? hw)).trans hw, hws⟩⟩

/-- If a type has one supertype at most, all paths up from it begin there. -/
theorem Above.of_only {only : TypeId} (h : s.Above type distance other)
    (honly : ∀ next, s.DirectSupertype type next → next = only) :
    (distance = 0 ∧ other = type) ∨ ∃ rest, distance = rest + 1 ∧ s.Above only rest other := by
  cases distance with
  | zero =>
    cases h
    exact .inl ⟨rfl, rfl⟩
  | succ rest =>
    obtain ⟨next, hnext, hrest⟩ := h.head
    exact .inr ⟨rest, rfl, honly next hnext ▸ hrest⟩

/-- A nullable form is an instantiation of a value type. -/
theorem IsNullableForm.kind?_eq (h : s.IsNullableForm type other) (hs : s.WellFormed) :
    s.kind? type = some .valueType := by
  obtain ⟨wrapper, isOpen, hwrapper, ho⟩ := h
  have hdefinition : s.definitionOf? type = some wrapper := by rw [definitionOf?_eq_origin?, ho]
  rw [hs.kind?_eq_of_definitionOf? hdefinition, (hs.roles.nullable wrapper hwrapper).1]

/-- It was not declared. -/
theorem IsNullableForm.origin?_ne (h : s.IsNullableForm type other) :
    s.origin? type ≠ some .declared := by
  obtain ⟨wrapper, isOpen, -, ho⟩ := h
  rw [ho]
  nofun

theorem IsNullableForm.ne (h : s.IsNullableForm type other) (hs : s.WellFormed) : other ≠ type := by
  obtain ⟨wrapper, isOpen, -, ho⟩ := h
  exact Nat.ne_of_lt (hs.args_known ho List.mem_cons_self).1

/-- A type is wrapped once. -/
theorem IsNullableForm.eq (h : s.IsNullableForm type a) (h' : s.IsNullableForm type b) : a = b := by
  obtain ⟨wrapper, isOpen, -, ho⟩ := h
  obtain ⟨wrapper', isOpen', -, ho'⟩ := h'
  rw [ho] at ho'
  cases ho'
  rfl

namespace CoreHierarchy

theorem above_root (h : s.CoreHierarchy root base wrapper) (hpath : s.Above root distance other) :
    distance = 0 ∧ other = root := by
  cases distance with
  | zero =>
    cases hpath
    exact ⟨rfl, rfl⟩
  | succ rest =>
    obtain ⟨d, hd, hnone⟩ := h.of_root
    obtain ⟨next, ⟨d', hd', hmem⟩, -⟩ := hpath.head
    rw [hd] at hd'
    cases hd'
    rw [hnone] at hmem
    cases hmem

theorem above_base (h : s.CoreHierarchy root base wrapper) (hpath : s.Above base distance other) :
    (distance = 0 ∧ other = base) ∨ (distance = 1 ∧ other = root) := by
  obtain ⟨d, hd, hone⟩ := h.of_base
  have honly : ∀ next, s.DirectSupertype base next → next = root := by
    rintro next ⟨d', hd', hmem⟩
    rw [hd] at hd'
    cases hd'
    rwa [hone, List.mem_singleton] at hmem
  obtain hself | ⟨rest, rfl, hrest⟩ := hpath.of_only honly
  · exact .inl hself
  · obtain ⟨rfl, rfl⟩ := h.above_root hrest
    exact .inr ⟨rfl, rfl⟩

/-- The supertype of the wrapper mentions no parameter, so all its instantiations have the same. -/
theorem directSupertype_nullableForm (h : s.CoreHierarchy root base wrapper) (hs : s.Coherent)
    (hform : s.IsNullableForm type other) {next : TypeId} (hnext : s.DirectSupertype type next) :
    next = base := by
  have hwf := hs.wellFormed
  obtain ⟨wrapper', open', hwrapper, ho⟩ := hform
  rw [h.roles] at hwrapper
  cases hwrapper
  obtain ⟨w, hw, hbase, hinterfaces⟩ := h.of_wrapper
  obtain ⟨d, g, hi, -⟩ := hwf.instantiates ho
  obtain ⟨open'', horigin⟩ := hi.origin_eq
  rw [hi.definition_eq] at hw
  cases hw
  obtain ⟨hbases, hnone⟩ :=
    hs.coherent type (lt_of_get? hi.type_eq) id d w _ _ _ hi.type_eq horigin hi.definition_eq
  obtain ⟨d', hd', hmem⟩ := hnext
  rw [hi.type_eq] at hd'
  cases hd'
  rcases Descriptor.mem_supertypes.mp hmem with hx | hx
  · obtain ⟨hkind, hdeclared⟩ := hwf.roles.valueTypeRoot base (by rw [h.roles])
    obtain ⟨v, hv, hvkind⟩ := Option.map_eq_some_iff.mp hkind
    have hclosed : v.hasOpenArguments = false := by
      rw [origin?_of_get? hv] at hdeclared
      rw [Descriptor.hasOpenArguments, Option.some.inj hdeclared]
    have hopen : s.isOpen base = false := by
      rw [isOpen, hv, Option.any_some, Descriptor.isOpen, hclosed, Descriptor.isParameter, hvkind]
      rfl
    rw [hx, hbase, Option.map_some, Option.map_some, Option.some.injEq,
      hwf.image_of_closed (hi.isParameter hwf) (lt_of_get? hv) hopen] at hbases
    exact hwf.tree_injective ((hwf.sound type d hi.type_eq).supertypes_lt hmem) (lt_of_get? hv)
      hbases
  · rw [hinterfaces, List.map_nil, List.map_eq_nil_iff] at hnone
    rw [hnone] at hx
    cases hx

theorem above_nullableForm (h : s.CoreHierarchy root base wrapper) (hs : s.Coherent)
    (hform : s.IsNullableForm type a) (hpath : s.Above type distance other) :
    (distance = 0 ∧ other = type) ∨ (distance = 1 ∧ other = base) ∨
      (distance = 2 ∧ other = root) := by
  obtain hself | ⟨rest, rfl, hrest⟩ :=
    hpath.of_only fun next => h.directSupertype_nullableForm hs hform
  · exact .inl hself
  · obtain ⟨rfl, rfl⟩ | ⟨rfl, rfl⟩ := h.above_base hrest
    · exact .inr (.inl ⟨rfl, rfl⟩)
    · exact .inr (.inr ⟨rfl, rfl⟩)

/-- In a store that is not too large, the limits of walks hide nothing above types that have nothing
far above them. -/
theorem inLimits_of_above (hs : s.WellFormed) (htype : type < s.size)
    (hsize : s.size ≤ maxAncestrySize)
    (hnear : ∀ {distance other}, s.Above type distance other → distance ≤ 2) : s.InLimits type where
  size := (hs.encard_widensTo_le htype).trans (by exact_mod_cast hsize)
  distance {other} hwidens := by
    obtain ⟨distance, hpath⟩ := hwidens
    exact ⟨distance, (hnear hpath).trans (by decide), hpath⟩

theorem root_ne_base (h : s.CoreHierarchy root base wrapper) : root ≠ base := by
  rintro rfl
  obtain ⟨d, hd, hnone⟩ := h.of_root
  obtain ⟨d', hd', hone⟩ := h.of_base
  rw [hd] at hd'
  cases hd'
  rw [hnone] at hone
  cases hone

end CoreHierarchy

/-! ## Chains of two assignments -/

/-- Within the limits, a type is accepted by the universal root, by its nullable form, and by
whatever it widens to. -/
theorem InLimits.accepts_iff (h : s.InLimits type) (hs : s.WellFormed) (htype : type < s.size)
    (hother : other < s.size) :
    s.accepts other type = .ok true ↔
      s.roles.root = some other ∨ s.IsNullableForm other type ∨ s.WidensTo type other := by
  rw [hs.accepts_iff hother htype h.size]
  constructor
  · rintro (rfl | hroot | hform | hreach)
    · exact .inr (.inr (.refl s other))
    · exact .inl hroot
    · exact .inr (.inl hform)
    · exact .inr (.inr hreach.widensTo)
  · rintro (hroot | hform | hwidens)
    · exact .inr (.inl hroot)
    · exact .inr (.inr (.inl hform))
    · exact .inr (.inr (.inr (h.distance hwidens)))

/-- The last type is a nullable form of the middle one, and the first one is neither of them. -/
def WrapsMiddle (s : Store) (a b c : TypeId) : Prop := s.IsNullableForm c b ∧ a ≠ b ∧ a ≠ c

/-- The middle type is a nullable form of the first one, and the last one is the root of value
types, which is not above the first one. -/
def UnwrapsFirst (s : Store) (a b c : TypeId) : Prop :=
  s.IsNullableForm b a ∧ s.roles.valueTypeRoot = some c ∧ ¬ s.WidensTo a c

/-- If `b` accepts `a` and `c` accepts `b`, then `c` accepts `a`, with two exceptions. -/
theorem CoreHierarchy.accepts_trans_iff (h : s.CoreHierarchy root base wrapper) (hs : s.Coherent)
    (ha : a < s.size) (hb : b < s.size) (hc : c < s.size) (hla : s.InLimits a) (hlb : s.InLimits b)
    (hab : s.accepts b a = .ok true) (hbc : s.accepts c b = .ok true) :
    s.accepts c a = .ok true ↔ ¬ s.WrapsMiddle a b c ∧ ¬ s.UnwrapsFirst a b c := by
  have hwf := hs.wellFormed
  have hdeclared : ∀ x, s.roles.root = some x ∨ s.roles.valueTypeRoot = some x →
      s.origin? x = some .declared := by
    rintro x (hx | hx)
    · exact (hwf.roles.root x hx).2
    · exact (hwf.roles.valueTypeRoot x hx).2
  rw [hla.accepts_iff hwf ha hb] at hab
  rw [hlb.accepts_iff hwf hb hc] at hbc
  rw [hla.accepts_iff hwf ha hc]
  constructor
  · intro hac
    constructor
    · rintro ⟨hform, hneb, hnec⟩
      obtain hroot | hform' | hwidens := hac
      · exact hform.origin?_ne (hdeclared c (.inl hroot))
      · exact hneb (hform'.eq hform)
      · exact hnec (hwf.eq_of_widensTo_valueType hwidens (hform.kind?_eq hwf)).symm
    · rintro ⟨-, hbase, hnot⟩
      obtain hroot | hform | hwidens := hac
      · rw [h.roles] at hroot hbase
        cases hroot
        cases hbase
        exact h.root_ne_base rfl
      · exact hform.origin?_ne (hdeclared c (.inr hbase))
      · exact hnot hwidens
  · rintro ⟨hwraps, hunwraps⟩
    obtain hroot | hform | hwidens := hbc
    · exact .inl hroot
    · -- the nullable form of `b` accepts `b` and itself
      by_cases hne : a = b
      · exact .inr (.inl (hne ▸ hform))
      · have heq : a = c := by
          by_contra hnec
          exact hwraps ⟨hform, hne, hnec⟩
        exact .inr (.inr (heq ▸ .refl s a))
    · obtain hroot | hform | hwidens' := hab
      · rw [h.roles] at hroot
        cases hroot
        obtain ⟨distance, hpath⟩ := hwidens
        obtain ⟨-, rfl⟩ := h.above_root hpath
        exact .inl (by rw [h.roles])
      · -- only the two roots are above the nullable form of `a`
        obtain ⟨distance, hpath⟩ := hwidens
        obtain ⟨-, rfl⟩ | ⟨-, rfl⟩ | ⟨-, rfl⟩ := h.above_nullableForm hs hform hpath
        · exact .inr (.inl hform)
        · by_contra hnot
          exact hunwraps ⟨hform, by rw [h.roles], fun hw => hnot (.inr (.inr hw))⟩
        · exact .inl (by rw [h.roles])
      · exact .inr (.inr (hwidens'.trans hwidens))

/-! ## Stores that grow from the core library -/

/-- The store comes from the core library by operations that may fail and give no roles. -/
def GrownFromCore (s : Store) : Prop :=
  ∃ (order : ScanOrder) (operations : List Operation),
    (∀ operation ∈ operations, operation.givesRole = false) ∧
      s = (core order).afterAll operations

theorem GrownFromCore.reachable (h : s.GrownFromCore) : s.Reachable := by
  obtain ⟨order, operations, -, rfl⟩ := h
  exact (Reachable.core order).afterAll operations

theorem GrownFromCore.keepsTypes (h : s.GrownFromCore) : core.KeepsTypes s := by
  obtain ⟨order, operations, hroles, rfl⟩ := h
  rw [← core_eq order]
  exact (Reachable.core order).keepsTypes_afterAll hroles

/-- The core library and `object?`, with the handle 87. -/
def wrappedObject : Store := core.afterAll [.nullableForm 0]

theorem grownFromCore_wrappedObject : wrappedObject.GrownFromCore :=
  ⟨.oldestFirst, [.nullableForm 0], by decide, rfl⟩

set_option maxRecDepth 10000 in
theorem facts_wrappedObject :
    wrappedObject.size = 88 ∧ wrappedObject.roles = ⟨some 0, some 1, some 63⟩ ∧
      (wrappedObject.get? 0).map Descriptor.supertypes = some [] ∧
      (wrappedObject.get? 1).map Descriptor.supertypes = some [0] ∧
      (wrappedObject.get? 63).map (fun d => (d.base, d.interfaces)) = some (some 1, []) ∧
      wrappedObject.origin? 87 = some (.instantiation 63 [0] false) ∧
      wrappedObject.accepts 0 1 = .ok true ∧ wrappedObject.accepts 1 87 = .ok true ∧
      wrappedObject.accepts 87 0 = .ok true ∧ wrappedObject.accepts 87 1 = .ok false := by
  decide +kernel

theorem coreHierarchy_wrappedObject : wrappedObject.CoreHierarchy 0 1 63 := by
  obtain ⟨-, hroles, hroot, hbase, hwrapper, -⟩ := facts_wrappedObject
  obtain ⟨w, hw, heq⟩ := Option.map_eq_some_iff.mp hwrapper
  obtain ⟨hwbase, hwinterfaces⟩ := Prod.mk.inj heq
  exact ⟨hroles, Option.map_eq_some_iff.mp hroot, Option.map_eq_some_iff.mp hbase, w, hw, hwbase,
    hwinterfaces⟩

/-- The core library has the hierarchy that it keeps when types are added to it. -/
theorem coreHierarchy_core : core.CoreHierarchy 0 1 63 := by
  have hkeeps := grownFromCore_wrappedObject.keepsTypes
  have hroles : core.roles = ⟨some 0, some 1, some 63⟩ :=
    hkeeps.roles_eq.symm.trans coreHierarchy_wrappedObject.roles
  have hfit := (coherent_core .oldestFirst).wellFormed.roles
  obtain ⟨-, ⟨r, hr, hrs⟩, ⟨v, hv, hvs⟩, ⟨w, hw, hws⟩⟩ := coreHierarchy_wrappedObject
  rw [hkeeps.get?_eq (lt_of_kind? (hfit.root 0 (by rw [hroles])).1)] at hr
  rw [hkeeps.get?_eq (lt_of_kind? (hfit.valueTypeRoot 1 (by rw [hroles])).1)] at hv
  rw [hkeeps.get?_eq (lt_of_kind? (hfit.nullable 63 (by rw [hroles])).1)] at hw
  exact ⟨hroles, ⟨r, hr, hrs⟩, ⟨v, hv, hvs⟩, ⟨w, hw, hws⟩⟩

/-- A type accepts itself. If `b` accepts `a` and `c` accepts `b`, then `c` accepts `a`, unless `c`
wraps `b` and `a` is neither of them, or `b` wraps `a` and `c` is the root of value types, which is
not above `a`. -/
theorem GrownFromCore.accepts_chain (hs : s.GrownFromCore) (ha : a < s.size) (hb : b < s.size)
    (hc : c < s.size) (hla : s.InLimits a) (hlb : s.InLimits b) :
    s.accepts a a = .ok true ∧
      (s.accepts b a = .ok true → s.accepts c b = .ok true →
        ∃ answer, s.accepts c a = .ok answer ∧
          (answer = true ↔ ¬ s.WrapsMiddle a b c ∧ ¬ s.UnwrapsFirst a b c)) := by
  have hcoherent := hs.reachable.coherent
  have hwf := hcoherent.wellFormed
  refine ⟨(hla.accepts_iff hwf ha ha).mpr (.inr (.inr (.refl s a))), fun hab hbc => ?_⟩
  obtain ⟨answer, hanswer⟩ := hwf.answered_accepts hc ha
  refine ⟨answer, hanswer, ?_⟩
  rw [← (hs.keepsTypes.coreHierarchy coreHierarchy_core).accepts_trans_iff hcoherent ha hb hc
    hla hlb hab hbc, hanswer, Except.ok.injEq]

/-- The limits of walks hide nothing from the three types of `wrappedObject`. -/
theorem inLimits_wrappedObject :
    ∀ type ∈ [0, 1, 87], type < wrappedObject.size ∧ wrappedObject.InLimits type := by
  have hcoherent := grownFromCore_wrappedObject.reachable.coherent
  have hcore := coreHierarchy_wrappedObject
  obtain ⟨hsize, hroles, -, -, -, ho, -⟩ := facts_wrappedObject
  have hform : wrappedObject.IsNullableForm 87 0 := ⟨63, false, by rw [hroles], ho⟩
  intro type htype
  have hknown : type < wrappedObject.size := by
    rw [hsize]
    revert type
    decide
  refine ⟨hknown, CoreHierarchy.inLimits_of_above hcoherent.wellFormed hknown
    (by rw [hsize]; decide) ?_⟩
  intro distance other hpath
  simp only [List.mem_cons, List.not_mem_nil, or_false] at htype
  obtain rfl | rfl | rfl := htype
  · have hnear := hcore.above_root hpath
    omega
  · have hnear := hcore.above_base hpath
    omega
  · have hnear := hcore.above_nullableForm hcoherent hform hpath
    omega

/-- `object?` is a value type, all of which `object` accepts. -/
theorem accepts_wrappedObject :
    wrappedObject.accepts 87 87 = .ok true ∧ wrappedObject.accepts 0 87 = .ok true := by
  obtain ⟨-, hroles, -, -, -, -, hroot, hbase, -⟩ := facts_wrappedObject
  obtain ⟨hself, hchain⟩ := grownFromCore_wrappedObject.accepts_chain
    (inLimits_wrappedObject 87 (by decide)).1 (inLimits_wrappedObject 1 (by decide)).1
    (inLimits_wrappedObject 0 (by decide)).1 (inLimits_wrappedObject 87 (by decide)).2
    (inLimits_wrappedObject 1 (by decide)).2
  obtain ⟨answer, hanswer, hiff⟩ := hchain hbase hroot
  have hfit := grownFromCore_wrappedObject.reachable.coherent.wellFormed.roles
  refine ⟨hself, hanswer.trans (congrArg Except.ok (hiff.mpr ⟨?_, ?_⟩))⟩
  · rintro ⟨hform, -⟩
    exact hform.origin?_ne (hfit.root 0 (by rw [hroles])).2
  · rintro ⟨-, hroot', -⟩
    rw [hroles] at hroot'
    cases hroot'

/-- `object` accepts `ValueType` and `object?` accepts `object`, but `object?` does not accept
`ValueType`. -/
theorem not_transitive_wrappedObject :
    wrappedObject.GrownFromCore ∧
      (∀ type ∈ [0, 1, 87], type < wrappedObject.size ∧ wrappedObject.InLimits type) ∧
      wrappedObject.accepts 0 1 = .ok true ∧ wrappedObject.accepts 87 0 = .ok true ∧
      wrappedObject.accepts 87 1 = .ok false := by
  obtain ⟨-, -, -, -, -, -, hfirst, -, hsecond, hthird⟩ := facts_wrappedObject
  exact ⟨grownFromCore_wrappedObject, inLimits_wrappedObject, hfirst, hsecond, hthird⟩

end NominalTypes.Store
