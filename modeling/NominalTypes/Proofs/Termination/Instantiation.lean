import NominalTypes.Proofs.History.Requests
import NominalTypes.Proofs.Termination.Runs

/-!
# Instantiating comes to an end

Instantiating, filling in supertypes and replacing parameters call one another. As operations they
are bounded twice: the first by the levels that are left, the last by the age of arguments. Here
they are traced runs, which have neither bound. They only count how deeply requests are nested and
refuse to go beyond the limit, and still some number of calls is enough to come to the same ends.

A new instantiation is registered before its supertypes are computed, and what is built for these
may mention it; but it is younger than its own arguments even so.

- `Store.instantiateAt`, `Store.fillAt`, `Store.substituteAt`: the runs.
- `Store.substitute_advances`: replacement of any types by any others leaves a consistent store.
- `Store.follows_substituteAt`, `Store.follows_fillAt`, `Store.follows_instantiateAt`: they follow
  the operations. The measure is how far the limit is away, and then the age of the type.
-/

namespace NominalTypes.Store

open Build (Ends ends_pure ends_throw ends_get ends_set ends_modify)
open Traced (step Follows follows_pure follows_step follows_set_bind follows_mapM
  follows_mapM_option)

variable {pending : TypeId → Prop} {s t : Store} {depth levels : Nat} {type definition : TypeId}
  {params args : List TypeId} {apply : TypeId → List TypeId → Build TypeId}

/-! ## The runs -/

mutual

/-- The type of a definition and arguments, where `depth` requests have led to this one. Nested in
one another are `calls` calls at most, this one counted. -/
def instantiateAt : (calls depth : Nat) → TypeId → List TypeId → Traced TypeId
  | 0, _, _, _ => Traced.givenUp
  | calls + 1, depth, definition, args =>
    if depth > maxInstantiationDepth then
      step depth do throw (.instantiationTooDeep ((← get).display definition))
    else do
      let generic ← step depth (Build.ask (·.descriptor definition))
      match generic.origin with
      | .definition params =>
        if params.length ≠ args.length then
          step depth do
            throw (.arityMismatch ((← get).display definition) params.length args.length)
        else if params = args then pure definition
        else do
          let described ← args.mapM fun arg => step depth (Build.ask (·.descriptor arg))
          let s ← step depth get
          match s.instantiations[(definition, args)]? with
          | some existing => pure existing
          | none => do
            step depth (set (s.register generic definition args (described.any Descriptor.isOpen)))
            fillAt calls depth definition s.size
            pure s.size
      | _ => step depth do throw (.notGenericDefinition ((← get).display definition))

/-- Fills in the supertypes of an instantiation: those of its definition, with the parameters
replaced by the arguments. -/
def fillAt : (calls depth : Nat) → TypeId → TypeId → Traced Unit
  | 0, _, _, _ => Traced.givenUp
  | calls + 1, depth, definition, type => do
    let generic ← step depth (Build.ask (·.descriptor definition))
    let built ← step depth (Build.ask (·.descriptor type))
    let base ← generic.base.mapM (substituteAt calls (depth + 1) generic.arguments built.arguments)
    let interfaces ←
      generic.interfaces.mapM (substituteAt calls (depth + 1) generic.arguments built.arguments)
    step depth (modify fun s => s.setSupertypes type base interfaces)

/-- The type with every parameter replaced by its argument. -/
def substituteAt : (calls depth : Nat) → (params args : List TypeId) → TypeId → Traced TypeId
  | 0, _, _, _, _ => Traced.givenUp
  | calls + 1, depth, params, args, type =>
    match assigned? params args type with
    | some arg => step depth (pure arg)
    | none => do
      let d ← step depth (Build.ask (·.descriptor type))
      if d.isOpen then do
        let s ← step depth get
        match s.definitionOf? type with
        | some definition => do
          let replaced ← d.arguments.mapM (substituteAt calls depth params args)
          if replaced = d.arguments then pure type
          else instantiateAt calls depth definition replaced
        | none => pure type
      else pure type

end

/-! ## What replacement leaves -/

/-- Whatever takes the place of whatever, definitions are applied to arguments and nothing else is
done to the store. -/
theorem substitute_advances (happly : Applies pending apply) (ht : s.Advances pending t) :
    (substitute apply params args type).Ends t (fun _ u => s.Advances pending u) fun _ => True := by
  induction type using Nat.strongRecOn generalizing t with
  | ind type ih =>
    have happlied : ∀ (u : Store) (replaced inner : List TypeId) (definition : TypeId),
        s.Advances pending u →
        (if replaced = inner then pure type else apply definition replaced : Build TypeId).Ends u
          (fun _ v => s.Advances pending v) fun _ => True := by
      intro u replaced inner definition hu
      split
      · exact ends_pure hu
      · exact (happly u definition replaced hu.consistent).mono
          (fun _ v hv => hu.trans ⟨hv.consistent, hv.builds⟩) fun _ _ => trivial
    rw [substitute]
    split
    · exact ends_pure ht
    refine Ends.bind (ends_descriptor (fun d _ => ?_) trivial)
    split
    swap
    · exact ends_pure ht
    split
    · exact happlied t _ _ type ht
    · next definition inner isOpen _ =>
      have hinner : (inner.mapM fun arg =>
          if arg < type then substitute apply params args arg else pure arg).Ends t
          (fun _ u => s.Advances pending u) fun _ => True := by
        refine Build.ends_mapM_inv ht fun arg _ u hu => ?_
        split
        · next hlt => exact ih arg hlt hu
        · exact ends_pure hu
      exact Ends.bind (hinner.mono (fun replaced u hu => happlied u replaced inner definition hu)
        fun _ => id)
    · exact ends_pure ht

/-! ## Steps that only look -/

section Look

variable {α β : Type} {next : Nat → α → Traced β} {next' : α → Build β}

theorem wellFounded_isArgument_setSupertypes (hs : s.WellFormed) (base : Option TypeId)
    (interfaces : List TypeId) : WellFounded (s.setSupertypes type base interfaces).IsArgument := by
  refine (hs.argumentsFirst.of_subset ?_).wellFounded
  rintro arg other ⟨d, hd, harg⟩
  rw [get?_setSupertypes] at hd
  split at hd
  · obtain ⟨e, he, rfl⟩ := Option.map_eq_some_iff.mp hd
    exact ⟨e, he, harg⟩
  · exact ⟨d, hd, harg⟩

/-- A step that leaves the store as it is, and so a safe one. -/
theorem follows_look {operation : Build α} (hs : s.WellFormed)
    (hdepth : depth ≤ maxInstantiationDepth + 1)
    (hends : operation.Ends s (fun _ t => t = s) fun t => t = s) :
    Follows (fun _ => step depth operation) operation s :=
  Traced.follows_step_of_ends hdepth hends (fun _ _ ht => ht ▸ hs.wellFounded_isArgument)
    fun _ ht => ht ▸ hs.wellFounded_isArgument

theorem follows_get_bind {next : Nat → Store → Traced β} {next' : Store → Build β}
    (hs : s.WellFormed) (hdepth : depth ≤ maxInstantiationDepth + 1)
    (hnext : Follows (fun calls => next calls s) (next' s) s) :
    Follows (fun calls => step depth get >>= next calls) (get >>= next') s := by
  have hends : (get : Build Store).Ends s (fun a t => a = s ∧ t = s) fun _ => False :=
    ends_get ⟨rfl, rfl⟩
  refine (follows_look hs hdepth (ends_get rfl)).bind hends ?_
  rintro _ _ ⟨rfl, rfl⟩
  exact hnext

theorem follows_descriptor_bind {next : Nat → Descriptor → Traced β} {next' : Descriptor → Build β}
    (hs : s.WellFormed) (hdepth : depth ≤ maxInstantiationDepth + 1)
    (hnext : ∀ d, s.get? type = some d → Follows (fun calls => next calls d) (next' d) s) :
    Follows (fun calls => step depth (Build.ask (·.descriptor type)) >>= next calls)
      (Build.ask (·.descriptor type) >>= next') s := by
  have hends : (Build.ask (·.descriptor type)).Ends s (fun d t => s.get? type = some d ∧ t = s)
      fun _ => True := ends_descriptor (fun d hd => ⟨hd, rfl⟩) trivial
  refine (follows_look hs hdepth (ends_descriptor (fun _ _ => rfl) rfl)).bind hends ?_
  rintro d _ ⟨hd, rfl⟩
  exact hnext d hd

/-- An error that shows a type leaves the store as it is. -/
theorem follows_throw {error : Store → StoreError} (hs : s.WellFormed)
    (hdepth : depth ≤ maxInstantiationDepth + 1) :
    Follows (fun _ => step depth (do throw (error (← get)) : Build α))
      (do throw (error (← get))) s :=
  follows_look hs hdepth (Ends.bind (ends_get (ends_throw rfl)))

end Look

/-! ## The runs follow the operations -/

/-- A type without open arguments is replaced itself or stays. -/
theorem follows_substituteAt_of_closed (hs : s.WellFormed)
    (hdepth : depth ≤ maxInstantiationDepth + 1) {d : Descriptor} (hd : s.get? type = some d)
    (hclosed : d.hasOpenArguments = false) :
    Follows (substituteAt · depth params args type)
      (pure ((assigned? params args type).getD type)) s := by
  refine Follows.of_succ ?_
  simp only [substituteAt]
  cases assigned? params args type with
  | some arg => exact follows_look hs hdepth (ends_pure rfl)
  | none =>
    have hask : (pure type : Build TypeId) s =
        (Build.ask (·.descriptor type) >>= fun _ => pure type : Build TypeId) s := by
      rw [ask_bind_of_get? hd]
    refine Follows.congr (follows_descriptor_bind hs hdepth fun e he => ?_) hask
    rw [hd] at he
    cases he
    by_cases hopen : d.isOpen = true
    swap
    · simp only [if_neg hopen]
      exact follows_pure type
    simp only [if_pos hopen]
    -- it is a parameter, which has no arguments
    have hparameter : s.isParameter type = true := by
      rw [isParameter, hd, Option.any_some]
      simpa [Descriptor.isOpen, hclosed] using hopen
    have hget : (pure type : Build TypeId) s = (get >>= fun _ => pure type : Build TypeId) s := rfl
    refine Follows.congr (follows_get_bind hs hdepth ?_) hget
    rw [hs.definitionOf?_parameter hparameter]
    exact follows_pure type

/-- The arguments of a definition are parameters, to which nothing is done on the way. -/
theorem follows_substituteAt_parameters (hs : s.WellFormed)
    (hdepth : depth ≤ maxInstantiationDepth + 1) {inner : List TypeId}
    (ho : s.origin? type = some (.definition inner)) :
    Follows (fun calls => inner.mapM (substituteAt calls depth params args))
      (pure (inner.map fun param => (assigned? params args param).getD param)) s := by
  refine Traced.follows_mapM_pure fun param hparam => ?_
  obtain ⟨position, hposition⟩ := hs.parameter_origin? ho hparam
  obtain ⟨d, hd, horigin, -⟩ := hs.sound_of_origin? hposition
  exact follows_substituteAt_of_closed hs hdepth hd (by rw [Descriptor.hasOpenArguments, horigin])

/-- A generic type that is open is taken apart into its definition and its arguments. -/
theorem follows_substituteAt_generic {operation : Build TypeId} (hs : s.WellFormed)
    (hdepth : depth ≤ maxInstantiationDepth + 1) (hnone : assigned? params args type = none)
    {d : Descriptor} (hd : s.get? type = some d) (hopen : d.isOpen = true)
    (hdefinition : s.definitionOf? type = some definition)
    (h : Follows (fun calls => do
      let replaced ← d.arguments.mapM (substituteAt calls depth params args)
      if replaced = d.arguments then pure type else instantiateAt calls depth definition replaced)
      operation s) :
    Follows (substituteAt · depth params args type) operation s := by
  refine Follows.of_succ ?_
  simp only [substituteAt]
  rw [hnone]
  have hask : operation s =
      (Build.ask (·.descriptor type) >>= fun _ => get >>= fun _ => operation : Build TypeId) s := by
    rw [ask_bind_of_get? hd, Build.get_bind]
  refine Follows.congr (follows_descriptor_bind hs hdepth fun e he => ?_) hask
  rw [hd] at he
  cases he
  simp only [if_pos hopen]
  refine follows_get_bind hs hdepth ?_
  rw [hdefinition]
  exact h

section Substitute

variable (hdepth : depth ≤ maxInstantiationDepth + 1)
  (hfollows : ∀ t, t.Consistent pending → ∀ definition args,
    Follows (instantiateAt · depth definition args) (apply definition args) t)

include hfollows in
theorem follows_unless_same (hs : s.Consistent pending) (replaced inner : List TypeId)
    (definition : TypeId) :
    Follows (fun calls =>
        if replaced = inner then pure type else instantiateAt calls depth definition replaced)
      (if replaced = inner then pure type else apply definition replaced) s :=
  Follows.ite (fun _ => follows_pure type) fun _ => hfollows s hs definition replaced

include hdepth hfollows

/-- Replacement of parameters comes to its end, if applying definitions to arguments does. -/
theorem follows_substituteAt (happly : Applies pending apply) (hs : s.Consistent pending) :
    Follows (substituteAt · depth params args type) (substitute apply params args type) s := by
  -- the arguments of an instantiation are older than itself
  induction type using Nat.strongRecOn generalizing s with
  | ind type ih =>
    have hwf := hs.wellFormed
    cases hnone : assigned? params args type with
    | some arg =>
      refine Follows.of_succ ?_
      simp only [substituteAt]
      rw [substitute, hnone]
      exact follows_look hwf hdepth (ends_pure rfl)
    | none =>
    cases hd : s.get? type with
    | none =>
      refine Follows.of_succ ?_
      simp only [substituteAt]
      rw [substitute, hnone]
      refine follows_descriptor_bind hwf hdepth fun d hd' => ?_
      rw [hd] at hd'
      cases hd'
    | some d =>
    have ho := origin?_of_get? hd
    rcases d.hasOpenArguments_cases with hclosed | ⟨inner, horigin⟩ | ⟨definition, inner, horigin⟩
    · have hrun : Follows (substituteAt · depth params args type)
          (pure ((assigned? params args type).getD type)) s :=
        follows_substituteAt_of_closed hwf hdepth hd hclosed
      rw [hnone] at hrun
      exact hrun.congr (substitute_of_closed hd hnone hclosed)
    · have harguments : d.arguments = inner := by rw [Descriptor.arguments, horigin]
      rw [horigin] at ho
      refine Follows.congr ?_ (substitute_definition hd hnone horigin)
      refine follows_substituteAt_generic hwf hdepth hnone hd
        (by rw [Descriptor.isOpen, Descriptor.hasOpenArguments, horigin, Bool.or_true])
        (by rw [definitionOf?_eq_origin?, ho]) ?_
      rw [harguments]
      exact (follows_substituteAt_parameters hwf hdepth ho).bind_pure
        (follows_unless_same hfollows hs _ _ _)
    · have harguments : d.arguments = inner := by rw [Descriptor.arguments, horigin]
      rw [horigin] at ho
      refine Follows.congr ?_ (substitute_instantiation hwf hd hnone horigin)
      refine follows_substituteAt_generic hwf hdepth hnone hd
        (by rw [Descriptor.isOpen, Descriptor.hasOpenArguments, horigin, Bool.or_true])
        (by rw [definitionOf?_eq_origin?, ho]) ?_
      rw [harguments]
      have hinner : ∀ arg ∈ inner, ∀ t, s.Advances pending t →
          Follows (substituteAt · depth params args arg) (substitute apply params args arg) t ∧
            (substitute apply params args arg).Ends t (fun _ u => s.Advances pending u)
              fun _ => True := by
        intro arg harg t ht
        exact ⟨ih arg (hwf.args_known ho harg).1 ht.consistent, substitute_advances happly ht⟩
      refine (follows_mapM _ hs.advances_self hinner).bind
        (Build.ends_mapM_inv hs.advances_self fun arg harg t ht => (hinner arg harg t ht).2) ?_
      exact fun replaced t ht =>
        follows_unless_same hfollows ht.consistent replaced inner definition

end Substitute

/-- Filling in supertypes comes to its end, if applying definitions to arguments does for requests
that are nested more deeply. -/
theorem follows_fillAt (hdepth : depth ≤ maxInstantiationDepth) (happly : Applies pending apply)
    (hfollows : ∀ t, t.Consistent pending → ∀ definition args,
      Follows (instantiateAt · (depth + 1) definition args) (apply definition args) t)
    (hs : s.Consistent pending) :
    Follows (fillAt · depth definition type) (substituteSupertypes apply definition type) s := by
  have hdepth' := Nat.le_succ_of_le hdepth
  refine Follows.of_succ ?_
  simp only [fillAt]
  refine follows_descriptor_bind hs.wellFormed hdepth' fun generic _ => ?_
  refine follows_descriptor_bind hs.wellFormed hdepth' fun built _ => ?_
  have hreplace : ∀ x t, s.Advances pending t →
      Follows (substituteAt · (depth + 1) generic.arguments built.arguments x)
        (substitute apply generic.arguments built.arguments x) t ∧
        (substitute apply generic.arguments built.arguments x).Ends t
          (fun _ u => s.Advances pending u) fun _ => True :=
    fun x t ht => ⟨follows_substituteAt (Nat.succ_le_succ hdepth) hfollows happly ht.consistent,
      substitute_advances happly ht⟩
  have hself := hs.advances_self
  have hbase : (generic.base.mapM (substitute apply generic.arguments built.arguments)).Ends s
      (fun _ t => s.Advances pending t) fun _ => True :=
    Build.ends_mapM_option (fun _ => hself) fun x _ => (hreplace x s hself).2
  refine (follows_mapM_option fun x _ => (hreplace x s hself).1).bind hbase fun base t ht => ?_
  refine (follows_mapM _ ht fun x _ => hreplace x).bind
    (Build.ends_mapM_inv ht fun x _ => (hreplace x · ·|>.2)) fun interfaces u hu => ?_
  exact follows_step hdepth'
    (wellFounded_isArgument_setSupertypes hu.consistent.wellFormed base interfaces)

/-- Instantiating comes to its end: the levels that are left lead to the limit. -/
theorem follows_instantiateAt (levels : Nat) :
    ∀ {depth : Nat}, depth + levels = maxInstantiationDepth + 1 →
      ∀ {pending : TypeId → Prop} {s : Store}, s.Consistent pending →
        ∀ (definition : TypeId) (args : List TypeId),
          Follows (instantiateAt · depth definition args)
            (instantiateWithin levels definition args) s := by
  induction levels with
  | zero =>
    intro depth hlevels pending s hs definition args
    rw [Nat.add_zero] at hlevels
    have hlimit : depth > maxInstantiationDepth := by
      rw [hlevels]
      exact Nat.lt_succ_self _
    refine Follows.of_succ ?_
    simp only [instantiateAt, if_pos hlimit]
    exact follows_throw hs.wellFormed (Nat.le_of_eq hlevels)
  | succ levels ih =>
    intro depth hlevels pending s hs definition args
    have hle : depth ≤ maxInstantiationDepth := by omega
    have hdepth := Nat.le_succ_of_le hle
    have hwf := hs.wellFormed
    refine Follows.of_succ ?_
    simp only [instantiateAt, if_neg (Nat.not_lt_of_le hle)]
    refine follows_descriptor_bind hwf hdepth fun generic hg => ?_
    cases hparams : generic.origin with
    | declared | instantiation _ _ _ | typeParameter _ _ | methodParameter =>
      exact follows_throw hwf hdepth
    | definition params =>
      refine Follows.ite (fun _ => follows_throw hwf hdepth) fun hlength => ?_
      refine Follows.ite (fun _ => follows_pure definition) fun hne => ?_
      have hdescribe : Follows
          (fun _ => args.mapM fun arg => step depth (Build.ask (·.descriptor arg)))
          (args.mapM fun arg => Build.ask (·.descriptor arg)) s := by
        refine follows_mapM (· = s) rfl fun arg _ t ht => ?_
        subst ht
        exact ⟨follows_look hwf hdepth (ends_descriptor (fun _ _ => rfl) rfl),
          ends_descriptor (fun _ _ => rfl) trivial⟩
      refine hdescribe.bind ends_describe ?_
      rintro described t ⟨rfl, hargs, hopen⟩
      refine follows_get_bind hwf hdepth ?_
      cases hkey : t.instantiations[(definition, args)]? with
      | some existing => exact follows_pure existing
      | none =>
        -- the new type is pending until its supertypes are filled in
        have hregistered := hs.register hg hparams (not_not.mp hlength) hne hargs hkey
        dsimp only
        rw [hopen]
        refine follows_set_bind hdepth hregistered.wellFormed.wellFounded_isArgument ?_
        refine (follows_fillAt hle (instantiateWithin_applies levels _) ?_ hregistered).bind
          (Build.ends_true _ _) fun _ u _ => follows_pure _
        exact fun u hu => ih (by omega) hu

end NominalTypes.Store
