import NominalTypes.Proofs.Hierarchy.Growth
import NominalTypes.Proofs.Identity

/-!
# What becomes of a request

A request to apply a definition to arguments is either refused at once, for a reason that has
nothing to do with what has been built, or finds a type that is there, or registers a new type and
goes on to its supertypes. On the way to the supertypes nothing is refused at once any more: what
fails there fails at the limit.

- `Store.misfit?`: why a request is refused at once.
- `Store.WellFormed.instantiateWithin_cases`: the three courses that a request may take.
- `Store.substitute_definition`, `Store.substitute_instantiation`: replacement of parameters, step
  by step.
- `Store.instantiateWithin_failsOnly`: a request that is not refused at once fails at the limit
  only.
-/

namespace NominalTypes

open Build (Ends FailsOnly failsOnly_pure failsOnly_modify failsOnly_mapM
  failsOnly_mapM_option)

/-- The error tells that supertypes lead to too many new instantiations in a row. -/
def StoreError.IsLimit (error : StoreError) : Prop := ∃ name, error = .instantiationTooDeep name

/-- A descriptor without open arguments, that of a definition, and that of an instantiation with
open arguments. -/
theorem Descriptor.hasOpenArguments_cases (d : Descriptor) :
    d.hasOpenArguments = false ∨ (∃ params, d.origin = .definition params) ∨
      ∃ definition args, d.origin = .instantiation definition args true := by
  unfold hasOpenArguments
  cases d.origin with
  | declared | typeParameter _ _ | methodParameter => exact .inl rfl
  | definition params => exact .inr (.inl ⟨params, rfl⟩)
  | instantiation definition args isOpen =>
    cases isOpen with
    | false => exact .inl rfl
    | true => exact .inr (.inr ⟨definition, args, rfl⟩)

namespace Store

variable {pending : TypeId → Prop} {s t : Store} {type definition : TypeId}
  {params args inner : List TypeId} {d g : Descriptor}
  {apply : TypeId → List TypeId → Build TypeId}

/-! ## Questions -/

/-- What follows a question about a known type goes on with its descriptor. -/
theorem ask_bind_of_get? {α : Type} (hd : s.get? type = some d) (next : Descriptor → Build α) :
    (Build.ask (·.descriptor type) >>= next) s = next d s :=
  Build.bind_of_ok (Build.eq_of_ends (ends_descriptor_of_get? hd ⟨rfl, rfl⟩)) next

/-- A question about a foreign handle ends the operation. -/
theorem ask_bind_of_none {α : Type} (hnone : s.get? type = none) (next : Descriptor → Build α) :
    (Build.ask (·.descriptor type) >>= next) s =
      (.error (.relation (.unknownType type)), s) := by
  have hrun : Build.ask (·.descriptor type) s = (.error (.relation (.unknownType type)), s) := by
    rw [Build.ask, Build.get_bind, descriptor, hnone]
    rfl
  rw [Build.bind_apply, hrun]

/-! ## The three courses -/

/-- Why a request is refused at once: the type is not a generic definition, or there are too many
arguments or too few. -/
def misfit? (s : Store) (definition : TypeId) (args : List TypeId) : Option StoreError :=
  match s.get? definition with
  | none => some (.relation (.unknownType definition))
  | some g =>
    match g.origin with
    | .definition params =>
      if params.length ≠ args.length then
        some (.arityMismatch (s.display definition) params.length args.length)
      else none
    | _ => some (.notGenericDefinition (s.display definition))

/-- The request leads to a new type. -/
structure IsNew (s : Store) (definition : TypeId) (args : List TypeId) (g : Descriptor)
    (params : List TypeId) : Prop where
  definition_eq : s.get? definition = some g
  parameters : g.origin = .definition params
  length_eq : params.length = args.length
  ne : params ≠ args
  args_lt : ∀ arg ∈ args, arg < s.size
  unregistered : s.instantiations[(definition, args)]? = none

theorem misfit?_eq_none_iff : s.misfit? definition args = none ↔
    ∃ params, s.origin? definition = some (.definition params) ∧ params.length = args.length := by
  unfold misfit? origin?
  cases s.get? definition with
  | none => simp
  | some g => cases ho : g.origin <;> simp [ho]

/-- A request that is refused at once leaves the store as it is. -/
theorem instantiateWithin_of_misfit {error : StoreError}
    (h : s.misfit? definition args = some error) (levels : Nat) :
    instantiateWithin (levels + 1) definition args s = (.error error, s) := by
  rw [instantiateWithin]
  unfold misfit? at h
  split at h
  · next hnone =>
    cases h
    exact ask_bind_of_none hnone _
  · next g hg =>
    rw [ask_bind_of_get? hg]
    cases ho : g.origin with
    | declared | instantiation _ _ _ | typeParameter _ _ | methodParameter =>
      rw [ho] at h
      cases h
      rfl
    | definition params =>
      rw [ho] at h
      dsimp only at h ⊢
      split at h
      swap
      · cases h
      next hlength =>
      cases h
      rw [if_pos hlength]
      rfl

/-- The course of a request that leads to a new type. -/
theorem IsNew.instantiateWithin_eq (h : s.IsNew definition args g params) (levels : Nat) :
    instantiateWithin (levels + 1) definition args s =
      (do
        substituteSupertypes (instantiateWithin levels) definition s.size
        pure s.size : Build TypeId) (s.register g definition args (args.any s.isOpen)) := by
  obtain ⟨described, t, hrun, ⟨rfl, -, hopen⟩, -⟩ :=
    ((ends_describe.and (WellFormed.ends_describe_of_lt h.args_lt)).mono
      (fun _ _ => id) fun _ ht => ht.2).exists_ok
  rw [instantiateWithin, ask_bind_of_get? h.definition_eq, h.parameters]
  dsimp only
  rw [if_neg (not_not_intro h.length_eq), if_neg h.ne, Build.bind_of_ok hrun, Build.get_bind,
    h.unregistered, hopen]
  rfl

/-- A request with known arguments is refused at once, finds a type, or leads to a new one. -/
theorem WellFormed.instantiateWithin_cases (hs : s.WellFormed) (levels : Nat)
    (hargs : ∀ arg ∈ args, arg < s.size) :
    (∃ error, s.misfit? definition args = some error ∧
      instantiateWithin (levels + 1) definition args s = (.error error, s)) ∨
    (∃ type, s.BuiltFrom type definition args ∧
      instantiateWithin (levels + 1) definition args s = (.ok type, s)) ∨
    ∃ g params, s.IsNew definition args g params := by
  cases hmisfit : s.misfit? definition args with
  | some error => exact .inl ⟨error, rfl, instantiateWithin_of_misfit hmisfit levels⟩
  | none =>
    by_cases hbuilt : ∃ type, s.BuiltFrom type definition args
    · obtain ⟨type, htype⟩ := hbuilt
      exact .inr (.inl ⟨type, htype, Build.eq_of_ends (hs.instantiateWithin_of_builtFrom htype _)⟩)
    obtain ⟨params, ho, hlength⟩ := misfit?_eq_none_iff.mp hmisfit
    obtain ⟨g, hg, hparams, -⟩ := hs.sound_of_origin? ho
    refine .inr (.inr ⟨g, params, hg, hparams, hlength, ?_, hargs, ?_⟩)
    · rintro rfl
      exact hbuilt ⟨definition, builtFrom_iff.mpr (.inl ⟨rfl, ho⟩)⟩
    · rw [Option.eq_none_iff_forall_ne_some]
      exact fun type hregistered => hbuilt ⟨type, (hs.registered_iff.mp hregistered).1⟩

namespace IsNew

/-- The store with the new type registered. -/
abbrev registered (_ : s.IsNew definition args g params) : Store :=
  s.register g definition args (args.any s.isOpen)

theorem builds (h : s.IsNew definition args g params) (hs : s.WellFormed) :
    s.Builds h.registered := hs.closed.builds_register h.unregistered

theorem consistent (h : s.IsNew definition args g params) (hs : s.Consistent pending) :
    h.registered.Consistent fun other => pending other ∨ other = s.size :=
  hs.register h.definition_eq h.parameters h.length_eq h.ne h.args_lt h.unregistered

theorem origin? (h : s.IsNew definition args g params) : h.registered.origin? s.size =
    some (.instantiation definition args (args.any s.isOpen)) := by
  rw [Store.origin?, get?_register, if_pos rfl]
  rfl

/-- The new type reads as the definition with the arguments. -/
theorem tree_eq (h : s.IsNew definition args g params) (hs : s.Consistent pending) :
    h.registered.tree s.size = .node definition (args.map s.tree) := by
  rw [(h.consistent hs).wellFormed.tree_instantiation h.origin?,
    (h.builds hs.wellFormed).map_tree_eq hs.wellFormed h.args_lt]

/-- The descriptors of the new type and of its definition. -/
theorem instantiates (h : s.IsNew definition args g params) (hs : s.Consistent pending) :
    ∃ d, h.registered.Instantiates s.size definition d g ∧ d.arguments = args := by
  obtain ⟨d, g', hi, hargs⟩ := (h.consistent hs).wellFormed.instantiates h.origin?
  have hg := (h.builds hs.wellFormed).grows.get?_eq (lt_of_get? h.definition_eq)
  rw [hi.definition_eq, h.definition_eq] at hg
  cases hg
  exact ⟨d, hi, hargs⟩

end IsNew

/-- Filling in the supertypes of an instantiation is replacing the parameters in those of its
definition. -/
theorem Instantiates.substituteSupertypes_eq (h : s.Instantiates type definition d g) :
    substituteSupertypes apply definition type s =
      (do
        let base ← g.base.mapM (substitute apply g.arguments d.arguments)
        let interfaces ← g.interfaces.mapM (substitute apply g.arguments d.arguments)
        modify fun t => t.setSupertypes type base interfaces : Build Unit) s := by
  rw [substituteSupertypes, ask_bind_of_get? h.definition_eq, ask_bind_of_get? h.type_eq]

/-! ## Replacement step by step -/

theorem substitute_of_assigned {arg : TypeId} (harg : assigned? params args type = some arg) :
    substitute apply params args type = pure arg := by
  rw [substitute, harg]

theorem substitute_of_closed (hd : s.get? type = some d)
    (hnone : assigned? params args type = none) (hclosed : d.hasOpenArguments = false) :
    substitute apply params args type s = (.ok type, s) := by
  rw [substitute, hnone]
  dsimp only
  rw [ask_bind_of_get? hd, hclosed, if_neg (by simp)]
  rfl

theorem substitute_definition (hd : s.get? type = some d)
    (hnone : assigned? params args type = none) (ho : d.origin = .definition inner) :
    substitute apply params args type s =
      (if (inner.map fun param => (assigned? params args param).getD param) = inner then pure type
        else apply type (inner.map fun param => (assigned? params args param).getD param) :
        Build TypeId) s := by
  rw [substitute, hnone]
  dsimp only
  rw [ask_bind_of_get? hd, if_pos (by rw [Descriptor.hasOpenArguments, ho]), ho]

theorem substitute_instantiation (hs : s.WellFormed) (hd : s.get? type = some d)
    (hnone : assigned? params args type = none)
    (ho : d.origin = .instantiation definition inner true) :
    substitute apply params args type s =
      (do
        let replaced ← inner.mapM (substitute apply params args)
        if replaced = inner then pure type else apply definition replaced : Build TypeId) s := by
  have hinner : (inner.mapM fun arg =>
      if arg < type then substitute apply params args arg else pure arg) =
      inner.mapM (substitute apply params args) := by
    refine mapM_congr fun arg harg => ?_
    have ho' := origin?_of_get? hd
    rw [ho] at ho'
    rw [if_pos (hs.args_known ho' harg).1]
  rw [substitute, hnone]
  dsimp only
  rw [ask_bind_of_get? hd, if_pos (by rw [Descriptor.hasOpenArguments, ho]), ho]
  dsimp only
  rw [hinner]

/-- The store goes on growing. -/
theorem Builds.substitute_goesOn (h : s.Builds t) (hs : s.WellFormed) (ht : t.Consistent pending)
    (happly : Applies pending apply) (hparams : ∀ p ∈ params, s.isParameter p = true)
    (hargs : ∀ arg ∈ args, arg < s.size) (htype : type < s.size) :
    (substitute apply params args type).Ends t (fun _ u => u.Consistent pending ∧ s.Builds u)
      fun _ => True :=
  (h.substitute_ends hs ht happly hparams hargs htype).mono
    (fun _ _ hu => ⟨hu.consistent, h.trans hu.builds⟩) fun _ _ => trivial

/-- Replacing parameters in several types. -/
theorem substituteAll_ends (happly : Applies pending apply) (hs : s.Consistent pending)
    (hparams : ∀ p ∈ params, s.isParameter p = true) (hargs : ∀ arg ∈ args, arg < s.size)
    {types : List TypeId} (htypes : ∀ x ∈ types, x < s.size) :
    (types.mapM (substitute apply params args)).Ends s
      (fun results t => t.Consistent pending ∧ s.Builds t ∧ (∀ r ∈ results, r < t.size) ∧
        results.map t.tree = types.map (s.image params args))
      fun t => s.Builds t :=
  ends_mapM_reaches hs fun x hx _ ht hst =>
    hst.substitute_ends hs.wellFormed ht happly hparams hargs (htypes x hx)

/-! ## Failures on the way -/

/-- A request with known arguments that is not refused at once fails for the given reason only. -/
def RefusesOnly (pending : TypeId → Prop) (apply : TypeId → List TypeId → Build TypeId)
    (reason : StoreError → Prop) : Prop :=
  ∀ (s : Store) (definition : TypeId) (args : List TypeId), s.Consistent pending →
    (∀ arg ∈ args, arg < s.size) → s.misfit? definition args = none →
    (apply definition args).FailsOnly s reason

section RefusesOnly

variable {reason : StoreError → Prop}

/-- The requests that replacement leads to are not refused at once. -/
theorem substitute_failsOnly (happly : Applies pending apply)
    (hrefuses : RefusesOnly pending apply reason) (hs : s.Consistent pending)
    (hparams : ∀ p ∈ params, s.isParameter p = true) (hargs : ∀ arg ∈ args, arg < s.size)
    (htype : type < s.size) : (substitute apply params args type).FailsOnly s reason := by
  induction type using Nat.strongRecOn generalizing s with
  | ind type ih =>
    have hwf := hs.wellFormed
    obtain ⟨d, hd⟩ := exists_get? htype
    have ho := origin?_of_get? hd
    cases harg : assigned? params args type with
    | some arg =>
      rw [substitute_of_assigned harg]
      exact failsOnly_pure
    | none =>
    rcases d.hasOpenArguments_cases with hclosed | ⟨inner, horigin⟩ | ⟨definition, inner, horigin⟩
    · intro error t hrun
      rw [substitute_of_closed hd harg hclosed] at hrun
      cases hrun
    · refine FailsOnly.congr ?_ (substitute_definition hd harg horigin)
      rw [horigin] at ho
      split
      · exact failsOnly_pure
      · refine hrefuses s _ _ hs (hwf.replaced_lt ho hargs) ?_
        exact misfit?_eq_none_iff.mpr ⟨inner, ho, List.length_map _ |>.symm⟩
    · refine FailsOnly.congr ?_ (substitute_instantiation hwf hd harg horigin)
      rw [horigin] at ho
      have hknown : ∀ x ∈ inner, x < s.size := fun x hx => (hwf.args_known ho hx).2
      refine FailsOnly.bind (failsOnly_mapM (fun t => t.Consistent pending ∧ s.Builds t)
        ⟨hs, hwf.closed.builds_refl⟩ ?_) (substituteAll_ends happly hs hparams hargs hknown) ?_
      · rintro x hx t ⟨ht, hst⟩
        have hkeeps := hst.keepsOutlines
        exact ⟨ih x (hwf.args_known ho hx).1 ht (hkeeps.all_isParameter hparams)
            (hkeeps.all_lt hargs) (hkeeps.all_lt hknown x hx),
          hst.substitute_goesOn hwf ht happly hparams hargs (hknown x hx)⟩
      · rintro replaced t ⟨ht, hst, hreplaced, htrees⟩
        split
        · exact failsOnly_pure
        · refine hrefuses t _ _ ht hreplaced (misfit?_eq_none_iff.mpr ?_)
          obtain ⟨_, -, hsound⟩ := hwf.instantiation ho
          obtain ⟨params', hparams', hlength, -⟩ := hsound.parameters
          have hsame := congrArg List.length htrees
          rw [List.length_map, List.length_map] at hsame
          exact ⟨params', hst.keepsOutlines.origin?_some hparams', hlength.trans hsame.symm⟩

theorem Instantiates.substituteSupertypes_failsOnly (h : s.Instantiates type definition d g)
    (happly : Applies pending apply) (hrefuses : RefusesOnly pending apply reason)
    (hs : s.Consistent pending) :
    (substituteSupertypes apply definition type).FailsOnly s reason := by
  have hwf := hs.wellFormed
  have hparams := h.isParameter hwf
  have hargs := h.args_lt hwf
  have hknown : ∀ x ∈ g.supertypes, x < s.size := fun x hx =>
    (hwf.sound definition g h.definition_eq).supertypes_lt hx
  have hstep : ∀ x ∈ g.supertypes, ∀ t, t.Consistent pending ∧ s.Builds t →
      (substitute apply g.arguments d.arguments x).FailsOnly t reason ∧
        (substitute apply g.arguments d.arguments x).Ends t
          (fun _ u => u.Consistent pending ∧ s.Builds u) fun _ => True := by
    rintro x hx t ⟨ht, hst⟩
    have hkeeps := hst.keepsOutlines
    exact ⟨substitute_failsOnly happly hrefuses ht (hkeeps.all_isParameter hparams)
        (hkeeps.all_lt hargs) (hkeeps.all_lt hknown x hx),
      hst.substitute_goesOn hwf ht happly hparams hargs (hknown x hx)⟩
  have hstart : s.Consistent pending ∧ s.Builds s := ⟨hs, hwf.closed.builds_refl⟩
  refine FailsOnly.congr ?_ h.substituteSupertypes_eq
  have hbase : (g.base.mapM (substitute apply g.arguments d.arguments)).Ends s
      (fun _ t => t.Consistent pending ∧ s.Builds t) fun _ => True :=
    Build.ends_mapM_option (fun _ => hstart) fun x hx =>
      (hstep x (Descriptor.mem_supertypes_of_base hx) s hstart).2
  refine FailsOnly.bind (failsOnly_mapM_option fun x hx =>
    (hstep x (Descriptor.mem_supertypes_of_base hx) s hstart).1) hbase fun base t ht => ?_
  have hrest : (g.interfaces.mapM (substitute apply g.arguments d.arguments)).FailsOnly t reason :=
    failsOnly_mapM _ ht fun x hx => hstep x (Descriptor.mem_supertypes_of_mem hx)
  exact hrest.bind_of_forall fun _ _ => failsOnly_modify

/-- What fails without being refused at once fails at the limit. -/
theorem instantiateWithin_failsOnly (levels : Nat) :
    ∀ pending, RefusesOnly pending (instantiateWithin levels) StoreError.IsLimit := by
  induction levels with
  | zero =>
    intro pending s definition args _ _ _ error t hrun
    rw [instantiateWithin] at hrun
    cases hrun
    exact ⟨_, rfl⟩
  | succ levels ih =>
    intro pending s definition args hs hargs hfits
    obtain ⟨error, hmisfit, -⟩ | ⟨type, -, hfound⟩ | ⟨g, params, hnew⟩ :=
      hs.wellFormed.instantiateWithin_cases levels hargs
    · rw [hfits] at hmisfit
      cases hmisfit
    · intro error t hrun
      rw [hfound] at hrun
      cases hrun
    · refine FailsOnly.congr ?_ (hnew.instantiateWithin_eq levels)
      obtain ⟨d, hi, -⟩ := hnew.instantiates hs
      exact (hi.substituteSupertypes_failsOnly (instantiateWithin_applies levels _) (ih _)
        (hnew.consistent hs)).bind_of_forall fun _ _ => failsOnly_pure

end RefusesOnly

end Store

end NominalTypes
