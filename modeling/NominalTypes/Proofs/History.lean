import NominalTypes.Proofs.Building.Naming
import NominalTypes.Proofs.History.Lockstep

/-!
# Requests and what has been built before

Whether a definition can be applied to arguments depends on what has been built before in one way
only: a type that is there already cuts a chain of new instantiations short. So a request that
succeeds goes on to succeed after any further instantiations, with a type that reads the same; and
one that is refused may succeed later only if it failed at the limit of new instantiations in a row.
All other refusals are final.

- `Store.Resembles`: two types of two stores are the same up to handles.
- `Store.Beside.resembles`: types that read the same resemble one another.
- `Store.afterRequests`: a run of requests, each of which may succeed or fail.
- `Store.Reachable.instantiate_afterRequests`: the main result.
- `Store.succeeds_later`: a request that is refused at the limit and succeeds later.
-/

namespace NominalTypes.Store

open Build (Ends)

variable {pending : TypeId → Prop} {b s t u v : Store} {type other definition : TypeId}
  {args : List TypeId} {d e : Descriptor} {error : StoreError}

/-- The types read the same and are shown the same, and their supertypes read the same, in the same
order. What a type reads as mentions the declared types alone. -/
structure Resembles (s t : Store) (type other : TypeId) : Prop where
  tree : s.tree type = t.tree other
  label : ∀ style, s.label style type = t.label style other
  supertypes : ∃ d e, s.get? type = some d ∧ t.get? other = some e ∧
    d.base.map s.tree = e.base.map t.tree ∧ d.interfaces.map s.tree = e.interfaces.map t.tree

/-! ## Types that read the same -/

/-- Descriptors of types that read the same: either of one old type that is not an instantiation, or
of two instantiations of one definition. -/
inductive Alike (b s t : Store) (type other : TypeId) (d e : Descriptor) : Prop
  | old (hold : type < b.size) (hsame : other = type) (heq : e = d) (hget : b.get? type = some d)
      (hnot : d.origin.isInstantiation = false)
  | instantiations {definition : TypeId} {args args' : List TypeId} {isOpen isOpen' : Bool}
      (hname : e.name = d.name) (hqualifier : e.qualifier = d.qualifier)
      (horigin : d.origin = .instantiation definition args isOpen)
      (horigin' : e.origin = .instantiation definition args' isOpen')
      (hargs : args.map s.tree = args'.map t.tree)

namespace Beside

/-- An old type is read by one handle in both stores. -/
theorem eq_of_old (h : b.Beside pending s t) (hother : other < t.size)
    (htree : s.tree type = t.tree other) (hold : type < b.size) : other = type := by
  rw [h.tree_eq hold] at htree
  exact (h.right.wellFormed.tree_injective (Nat.lt_of_lt_of_le hold h.fromRight.size_le) hother
    htree).symm

theorem eq_of_old' (h : b.Beside pending s t) (htype : type < s.size)
    (htree : s.tree type = t.tree other) (hold : other < b.size) : other = type := by
  rw [← h.tree_eq hold] at htree
  exact (h.left.wellFormed.tree_injective htype (Nat.lt_of_lt_of_le hold h.fromLeft.size_le)
    htree).symm

/-- Types that read the same have the same keyword, for new types have none. -/
theorem keyword?_eq (h : b.Beside pending s t) (hs : b.SameNaming s) (ht : b.SameNaming t)
    (htype : type < s.size) (hother : other < t.size) (htree : s.tree type = t.tree other) :
    t.keyword? other = s.keyword? type := by
  rw [hs.keyword?_eq, ht.keyword?_eq]
  by_cases hold : type < b.size
  · rw [h.eq_of_old hother htree hold]
  by_cases hold' : other < b.size
  · rw [h.eq_of_old' htype htree hold']
  have hnone : ∀ x, ¬ x < b.size → b.keyword? x = none := by
    intro x hx
    rw [keyword?, Option.eq_none_iff_forall_ne_some]
    exact fun keyword hkeyword => hx (h.origin.closed.keywords x keyword hkeyword)
  rw [hnone type hold, hnone other hold']

/-- The descriptors of types that read the same are alike. -/
theorem alike (h : b.Beside pending s t) (hd : s.get? type = some d) (he : t.get? other = some e)
    (htree : s.tree type = t.tree other) : b.Alike s t type other d e := by
  have hleft := h.left.wellFormed
  have hright := h.right.wellFormed
  have ho := origin?_of_get? hd
  have ho' := origin?_of_get? he
  cases hinstantiation : d.origin.isInstantiation with
  | false =>
    have hold : type < b.size := by
      by_contra hge
      obtain ⟨_, _, _, hnew⟩ := h.fromLeft.new type (Nat.le_of_not_lt hge) (lt_of_get? hd)
      rw [ho] at hnew
      rw [Option.some.inj hnew] at hinstantiation
      cases hinstantiation
    obtain rfl := h.eq_of_old (lt_of_get? he) htree hold
    have hget := (h.fromLeft.grows.get?_eq hold).symm.trans hd
    rw [h.fromRight.grows.get?_eq hold, hget] at he
    cases he
    exact .old hold rfl rfl hget hinstantiation
  | true =>
    cases horigin : d.origin with
    | declared | definition _ | typeParameter _ _ | methodParameter =>
      rw [horigin] at hinstantiation
      cases hinstantiation
    | instantiation definition args isOpen =>
    rw [horigin] at ho
    rw [hleft.tree_instantiation ho] at htree
    obtain ⟨e', he', hdefinition, hargs⟩ := hright.of_tree_eq_node (lt_of_get? he) htree.symm
    rw [he] at he'
    cases he'
    obtain ⟨d', hd', hsound⟩ := hleft.instantiation ho
    rw [hd] at hd'
    cases hd'
    obtain ⟨params, hparams, -, -⟩ := hsound.parameters
    obtain ⟨hold, hget, hget'⟩ := h.get?_definition hparams
    obtain ⟨rfl, -⟩ | ⟨isOpen', ho''⟩ := builtFrom_iff.mp ⟨e, he, hdefinition, rfl⟩
    · -- the definition itself reads the same on both sides, and is no instantiation
      rw [← hleft.tree_instantiation ho] at htree
      obtain rfl := h.eq_of_old' (lt_of_get? hd) htree hold
      rw [ho] at hparams
      cases hparams
    · obtain ⟨e', he', hsound'⟩ := hright.instantiation ho''
      rw [he] at he'
      cases he'
      obtain ⟨g, hg, hname, hqualifier, -⟩ := hsound.outline
      obtain ⟨g', hg', hname', hqualifier', -⟩ := hsound'.outline
      rw [outline?, hget'] at hg'
      rw [outline?, hget, hg'] at hg
      cases hg
      have horigin' : e.origin = .instantiation definition e.arguments isOpen' := by
        rw [origin?_of_get? he] at ho''
        exact Option.some.inj ho''
      exact .instantiations (hname'.trans hname.symm) (hqualifier'.trans hqualifier.symm) horigin
        horigin' hargs.symm

/-- A parameter of an old type is shown the same in both stores. -/
theorem headLabel_eq (h : b.Beside pending s t) (hs : b.SameNaming s) (ht : b.SameNaming t)
    (style : LabelStyle) (hold : type < b.size) :
    s.headLabel style type = t.headLabel style type := by
  rw [headLabel, headLabel, h.fromLeft.grows.get?_eq hold, h.fromRight.grows.get?_eq hold,
    hs.shownKeyword?_eq, ht.shownKeyword?_eq]

/-- Types that read the same are shown the same. -/
theorem label_eq (h : b.Beside pending s t) (hs : b.SameNaming s) (ht : b.SameNaming t)
    (style : LabelStyle) (htype : type < s.size) (hother : other < t.size)
    (htree : s.tree type = t.tree other) : s.label style type = t.label style other := by
  induction type using Nat.strongRecOn generalizing other with
  | ind type ih =>
    have hleft := h.left.wellFormed
    have hright := h.right.wellFormed
    obtain ⟨d, hd⟩ := exists_get? htype
    obtain ⟨e, he⟩ := exists_get? hother
    have hkeyword : t.shownKeyword? style other = s.shownKeyword? style type := by
      cases style with
      | short => exact h.keyword?_eq hs ht htype hother htree
      | full => rfl
    cases hshown : s.shownKeyword? style type with
    | some keyword =>
      rw [label_of_keyword hd hshown, label_of_keyword he (hkeyword.trans hshown)]
    | none =>
    have hshown' := hkeyword.trans hshown
    cases h.alike hd he htree with
    | old hold hsame heq hget hnot =>
      rw [heq] at he
      cases horigin : d.origin with
      | instantiation _ _ _ =>
        rw [horigin] at hnot
        cases hnot
      | declared | typeParameter _ _ | methodParameter =>
        have hplain : d.isGeneric = false := by rw [Descriptor.isGeneric, horigin]
        rw [label_plain hd hshown hplain, label_plain he hshown' hplain]
      | definition params =>
        have ho := origin?_of_get? hget
        rw [horigin] at ho
        rw [label_definition hd hshown horigin, label_definition he hshown' horigin]
        congr 2
        refine List.map_congr_left fun param hparam => h.headLabel_eq hs ht style ?_
        exact lt_of_origin? (h.origin.parameter_origin? ho hparam).choose_spec
    | @instantiations definition args args' isOpen isOpen' hname hqualifier horigin horigin'
        hargs =>
      have ho := origin?_of_get? hd
      have ho' := origin?_of_get? he
      rw [horigin] at ho
      rw [horigin'] at ho'
      have hshownArgs : args.map (s.label style) = args'.map (t.label style) :=
        map_eq_of_map_eq (fun x hx y hy => ih x (hleft.args_known ho hx).1
          (hleft.args_known ho hx).2 (hright.args_known ho' hy).2) hargs
      rw [label_instantiation hleft hd hshown horigin,
        label_instantiation hright he hshown' horigin', hshownArgs]
      simp only [appliedLabel, headName_congr hname hqualifier, hs.roles, ht.roles]

/-- Types of coherent stores that read the same have supertypes that read the same. -/
theorem supertypes_eq (h : b.Beside pending s t) (hleft : s.Coherent) (hright : t.Coherent)
    (hd : s.get? type = some d) (he : t.get? other = some e)
    (htree : s.tree type = t.tree other) :
    d.base.map s.tree = e.base.map t.tree ∧ d.interfaces.map s.tree = e.interfaces.map t.tree := by
  cases h.alike hd he htree with
  | old hold hsame heq hget hnot =>
    rw [heq]
    exact d.map_supertypes_congr fun x hx =>
      h.tree_eq ((h.origin.sound type d hget).supertypes_lt hx)
  | @instantiations definition args args' isOpen isOpen' hname hqualifier horigin horigin' hargs =>
    have ho := origin?_of_get? hd
    rw [horigin] at ho
    obtain ⟨_, -, hsound⟩ := hleft.wellFormed.instantiation ho
    obtain ⟨params, hparams, -, -⟩ := hsound.parameters
    obtain ⟨hold, hget, hget'⟩ := h.get?_definition hparams
    obtain ⟨g, hg⟩ := exists_get? hold
    obtain ⟨hbase, hinterfaces⟩ :=
      hleft.coherent type (lt_of_get? hd) id d g _ _ _ hd horigin (hget.trans hg)
    obtain ⟨hbase', hinterfaces'⟩ :=
      hright.coherent other (lt_of_get? he) id e g _ _ _ he horigin' (hget'.trans hg)
    have himage : ∀ x ∈ g.supertypes, s.image g.arguments args x = t.image g.arguments args' x :=
      fun x hx => h.image_eq ((h.origin.sound definition g hg).supertypes_lt hx) hargs
    obtain ⟨hbaseImage, hinterfacesImage⟩ := g.map_supertypes_congr himage
    exact ⟨by rw [hbase, hbase', hbaseImage], by rw [hinterfaces, hinterfaces', hinterfacesImage]⟩

/-- So they resemble one another. -/
theorem resembles (h : b.Beside pending s t) (hs : b.SameNaming s) (ht : b.SameNaming t)
    (hleft : s.Coherent) (hright : t.Coherent) (htype : type < s.size) (hother : other < t.size)
    (htree : s.tree type = t.tree other) : s.Resembles t type other := by
  obtain ⟨d, hd⟩ := exists_get? htype
  obtain ⟨e, he⟩ := exists_get? hother
  exact ⟨htree, fun style => h.label_eq hs ht style htype hother htree, d, e, hd, he,
    h.supertypes_eq hleft hright hd he htree⟩

end Beside

/-! ## Runs of requests -/

/-- The store after some requests, each of which may succeed or fail. -/
def afterRequests (s : Store) (requests : List (TypeId × List TypeId)) : Store :=
  s.afterAll (requests.map fun (definition, args) => .instantiate definition args)

/-- A request lets the store grow by instantiations, and enters no name. -/
theorem Reachable.after_instantiate (hs : s.Reachable) (definition : TypeId) (args : List TypeId) :
    s.Builds ((Operation.instantiate definition args).perform.after s) ∧
      s.SameNaming ((Operation.instantiate definition args).perform.after s) := by
  have hends := (instantiate_sameNaming hs.coherent definition args).and
    (instantiate_ends hs.coherent)
  rw [Operation.perform, Build.after_dropped]
  constructor
  · exact hends.store (fun _ _ ht => ht.2.builds)
      fun _ ht => ht.2.builds hs.coherent.wellFormed.closed
  · exact hends.store (fun _ _ ht => ht.1) fun _ ht => ht.1

theorem Reachable.afterRequests (hs : s.Reachable) (requests : List (TypeId × List TypeId)) :
    (s.afterRequests requests).Reachable ∧ s.Builds (s.afterRequests requests) ∧
      s.SameNaming (s.afterRequests requests) := by
  induction requests generalizing s with
  | nil => exact ⟨hs, hs.coherent.wellFormed.closed.builds_refl, .refl s⟩
  | cons request requests ih =>
    obtain ⟨definition, args⟩ := request
    obtain ⟨hbuilds, hnaming⟩ := hs.after_instantiate definition args
    obtain ⟨hreachable, hbuilds', hnaming'⟩ := ih (.step (.instantiate definition args) hs)
    exact ⟨hreachable, hbuilds.trans hbuilds', hnaming.trans hnaming'⟩

/-- A store stands beside itself after some requests. -/
theorem Reachable.beside_afterRequests (hs : s.Reachable)
    (requests : List (TypeId × List TypeId)) :
    s.Beside (fun _ => False) s (s.afterRequests requests) := by
  obtain ⟨ht, hbuilds, -⟩ := hs.afterRequests requests
  have hwf := hs.coherent.wellFormed
  exact ⟨hwf, hs.coherent.weaken fun _ => False.elim, ht.coherent, hwf.closed.builds_refl, hbuilds,
    fun type htype => hbuilds.keepsOutlines.has hwf ⟨type, htype, rfl⟩, fun _ => False.elim⟩

/-! ## Refusals -/

/-- A request with known arguments fails at the limit, or is refused at once. -/
theorem Consistent.instantiate_eq_error_iff (hs : s.Consistent pending)
    (hargs : ∀ arg ∈ args, arg < s.size) (hlimit : ¬ error.IsLimit) :
    (instantiate definition args s).1 = .error error ↔ s.misfit? definition args = some error := by
  rw [instantiate, Build.fst_atomic]
  cases hmisfit : s.misfit? definition args with
  | some error' =>
    rw [instantiateWithin_of_misfit hmisfit, Except.error.injEq, Option.some.injEq]
  | none =>
    constructor
    · intro hrun
      have hreason := instantiateWithin_failsOnly (maxInstantiationDepth + 1) pending s definition
        args hs hargs hmisfit
      exact absurd (hreason error _ (Prod.ext hrun rfl)) hlimit
    · intro h
      cases h

/-- Whether a request for an old type is refused at once, and how, stays the same. -/
theorem Beside.misfit?_eq (h : b.Beside pending s t) (hs : b.SameNaming s) (ht : b.SameNaming t)
    (hdefinition : definition < b.size) :
    s.misfit? definition args = t.misfit? definition args := by
  have hdisplay : s.display definition = t.display definition :=
    h.label_eq hs ht .short (Nat.lt_of_lt_of_le hdefinition h.fromLeft.size_le)
      (Nat.lt_of_lt_of_le hdefinition h.fromRight.size_le) (h.tree_eq hdefinition)
  rw [misfit?, misfit?, h.fromLeft.grows.get?_eq hdefinition,
    h.fromRight.grows.get?_eq hdefinition, hdisplay]

/-! ## The same request before and after -/

/-- A request that succeeds, with known arguments, still succeeds after any other requests, and
gives a type that resembles the first one. One that succeeds after them but not before has failed at
the limit before. Every other refusal is the same before and after. -/
theorem Reachable.instantiate_afterRequests (hs : s.Reachable)
    (requests : List (TypeId × List TypeId)) (hdefinition : definition < s.size)
    (hargs : ∀ arg ∈ args, arg < s.size) :
    (∀ type u, instantiate definition args s = (.ok type, u) →
      ∃ other v, instantiate definition args (s.afterRequests requests) = (.ok other, v) ∧
        u.Resembles v type other) ∧
    (∀ other v, instantiate definition args (s.afterRequests requests) = (.ok other, v) →
      (∃ type u, instantiate definition args s = (.ok type, u)) ∨
        ∃ name, (instantiate definition args s).1 = .error (.instantiationTooDeep name)) ∧
    ∀ error, (∀ name, error ≠ .instantiationTooDeep name) →
      ((instantiate definition args s).1 = .error error ↔
        (instantiate definition args (s.afterRequests requests)).1 = .error error) := by
  obtain ⟨ht, hbuilds, hnaming⟩ := hs.afterRequests requests
  have hbeside := hs.beside_afterRequests requests
  have hwf := hs.coherent.wellFormed
  have hargs' := hbuilds.keepsOutlines.all_lt hargs
  have hrefusals : ∀ error, (∀ name, error ≠ .instantiationTooDeep name) →
      ((instantiate definition args s).1 = .error error ↔
        (instantiate definition args (s.afterRequests requests)).1 = .error error) := by
    intro error hne
    have hlimit : ¬ error.IsLimit := fun ⟨name, heq⟩ => hne name heq
    rw [hs.coherent.instantiate_eq_error_iff hargs hlimit,
      ht.coherent.instantiate_eq_error_iff hargs' hlimit,
      hbeside.misfit?_eq (.refl s) hnaming hdefinition]
  refine ⟨?_, ?_, hrefusals⟩
  · intro type u hrun
    have hcarries := instantiateWithin_carriesOver (b := s) (maxInstantiationDepth + 1) _ _ _
      definition args args hbeside hargs hargs' (hbeside.map_tree_eq hargs)
    obtain ⟨other, v, hrun', hcovered⟩ := hcarries.of_ok (Build.atomic_eq_ok.mp hrun)
    replace hrun' := Build.atomic_eq_ok.mpr hrun'
    have hu := (instantiate_ends hs.coherent).of_ok hrun
    have hv := (instantiate_ends ht.coherent).of_ok hrun'
    have hsu := (instantiate_sameNaming hs.coherent definition args).of_ok hrun
    have htv := (instantiate_sameNaming ht.coherent definition args).of_ok hrun'
    have hbeside' := hbeside.advance (hu.consistent.weaken fun _ => False.elim) hu.builds
      hv.consistent hv.builds hcovered
    refine ⟨other, v, hrun', hbeside'.resembles hsu (hnaming.trans htv) hu.consistent hv.consistent
      hu.known hv.known ?_⟩
    rw [hu.tree_eq, hv.tree_eq]
    exact congrArg (TypeTree.node definition) (hbeside'.map_tree_eq hargs)
  · intro other v hrun
    cases hfirst : (instantiate definition args s).1 with
    | ok type => exact .inl ⟨type, _, Prod.ext hfirst rfl⟩
    | error error =>
      by_contra hnot
      have hne : ∀ name, error ≠ .instantiationTooDeep name := by
        rintro name rfl
        exact hnot (.inr ⟨name, rfl⟩)
      rw [hrefusals error hne, hrun] at hfirst
      cases hfirst

/-- `Eq<Eq<A>>`, which comes up as an interface of `Node<Eq<A>>`, is the same type as if it had been
built first. -/
theorem resembles_after_node :
    ∃ other v, instantiate 0 [8] (selfReferring.afterRequests [(3, [8])]) = (.ok other, v) ∧
      ((instantiate 0 [8]).after selfReferring).Resembles v 9 other :=
  (reachable_selfReferring.instantiate_afterRequests [(3, [8])] (by decide +kernel)
    (by decide +kernel)).1 9 _ (Prod.ext (by decide +kernel) rfl)

/-- An interface that extends itself with its arguments moved on by one place: the first six lead
into a cycle of five, and the last nine make up another cycle. -/
def wheels : Declaration :=
  { Declaration.plain .interface "R" with
    parameters := ["a", "b", "c", "d", "e", "f", "p", "q", "r", "s", "t", "g", "h", "i", "j", "k",
      "l", "m", "n", "o"]
    interfaces := ["R<b,c,d,e,f,p,q,r,s,t,p,h,i,j,k,l,m,n,o,g>"] }

/-- The interface and two classes, with the handles 71 and 72. -/
def turning : Store :=
  let declared := (Operation.declare wheels).perform.after .empty
  let declared := (Operation.declare (.plain .classType "X")).perform.after declared
  (Operation.declare (.plain .classType "Y")).perform.after declared

/-- Arguments from which fifty-one new types in a row would have to be built. -/
def outset : List TypeId :=
  [71, 71, 71, 71, 71, 72, 72, 71, 71, 71, 71, 72, 71, 71, 71, 71, 71, 71, 71, 71]

/-- The same arguments moved on by one place. -/
def movedOn : List TypeId :=
  [71, 71, 71, 71, 72, 72, 71, 71, 71, 71, 72, 71, 71, 71, 71, 71, 71, 71, 71, 72]

/-- A request that is refused at the limit succeeds once another one, for types that are just as
old, has succeeded. -/
theorem succeeds_later :
    turning.Reachable ∧ (∀ type ∈ 0 :: (outset ++ movedOn), type < turning.size) ∧
      (instantiate 0 outset turning).1 = .error (.instantiationTooDeep (turning.display 0)) ∧
      (instantiate 0 movedOn turning).1 = .ok 73 ∧
      (instantiate 0 outset (turning.afterRequests [(0, movedOn)])).1 = .ok 123 := by
  refine ⟨.step _ (.step _ (.step _ .empty)), ?_⟩
  decide +kernel

end NominalTypes.Store
