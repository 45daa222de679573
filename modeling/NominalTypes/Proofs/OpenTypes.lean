import NominalTypes.Proofs.Building.Accepted
import NominalTypes.Proofs.Building.Arguments
import NominalTypes.Proofs.History.Requests

/-!
# The flag of open types is exact

Whether an instantiation is open is noted when it is registered, from what is noted of its
arguments, and never again. The note is right all the same: a type is open exactly if following
arguments from it leads to a generic parameter. So replacement of parameters, which does not look
into a type that is not open, misses nothing.

- `Store.WellFormed.isOpen_iff_leadsDownTo`: the flag and the arguments.
- `Store.substituteThroughout`: replacement of parameters without regard to the flag.
- `Store.WellFormed.substituteThroughout_of_closed`: it finds nothing in a type that is not open.
- `Store.substituteThroughout_eq`: it does the same as `Store.substitute`.
- `Store.Reachable.hasExactFlags`: the main result.
-/

namespace NominalTypes.Store

open Build (Ends)

variable {pending : TypeId → Prop} {s : Store} {type : TypeId} {params args : List TypeId}
  {apply : TypeId → List TypeId → Build TypeId}

/-! ## The flag -/

/-- A type is open exactly if it leads to a generic parameter. -/
theorem WellFormed.isOpen_iff_leadsDownTo (hs : s.WellFormed) (htype : type < s.size) :
    s.isOpen type = true ↔ ∃ param, s.LeadsDownTo type param ∧ s.isParameter param = true := by
  rw [hs.isOpen_iff htype]
  refine exists_congr fun param => ⟨?_, ?_⟩
  · rintro ⟨hleaf, hparameter⟩
    exact ⟨(hs.mem_leaves_tree_iff.mp hleaf).1, hparameter⟩
  · rintro ⟨hpath, hparameter⟩
    exact ⟨hs.mem_leaves_tree_iff.mpr ⟨hpath, hs.definitionOf?_parameter hparameter⟩, hparameter⟩

theorem isOpen_of_isParameter (h : s.isParameter type = true) : s.isOpen type = true := by
  obtain ⟨d, hd, hparameter⟩ := (Option.any_eq_true _ _).mp h
  rw [isOpen, hd, Option.any_some, Descriptor.isOpen, hparameter, Bool.true_or]

/-- Nothing is assigned to a type that is not open. -/
theorem assigned?_of_closed (hparams : ∀ p ∈ params, s.isParameter p = true)
    (hclosed : s.isOpen type = false) : assigned? params args type = none := by
  cases harg : assigned? params args type with
  | none => rfl
  | some arg =>
    have hopen := isOpen_of_isParameter (hparams type (assigned?_mem harg).1)
    rw [hclosed] at hopen
    cases hopen

/-- The arguments of an instantiation that is not open are not open. -/
theorem WellFormed.isOpen_of_mem (hs : s.WellFormed) {definition : TypeId} {isOpen : Bool}
    (ho : s.origin? type = some (.instantiation definition args isOpen)) (hclosed : isOpen = false)
    {arg : TypeId} (harg : arg ∈ args) : s.isOpen arg = false := by
  obtain ⟨d, -, hsound⟩ := hs.instantiation ho
  have hany := hsound.isOpen_eq.symm.trans hclosed
  exact Bool.eq_false_iff.mpr (List.any_eq_false.mp hany arg harg)

/-! ## Replacement without the flag -/

/-- The type with every parameter replaced by its argument, looking into every type on the way. -/
def substituteThroughout (instantiate : TypeId → List TypeId → Build TypeId)
    (params args : List TypeId) (type : TypeId) : Build TypeId :=
  match assigned? params args type with
  | some arg => pure arg
  | none => do
    let d ← Build.ask (·.descriptor type)
    match d.origin with
    | .definition inner =>
      let replaced := inner.map fun param => (assigned? params args param).getD param
      if replaced = inner then pure type else instantiate type replaced
    | .instantiation definition inner _ => do
      let replaced ← inner.mapM fun arg =>
        if arg < type then substituteThroughout instantiate params args arg else pure arg
      if replaced = inner then pure type else instantiate definition replaced
    | _ => pure type
termination_by type

theorem substituteThroughout_instantiation (hs : s.WellFormed) {d : Descriptor}
    (hd : s.get? type = some d) (hnone : assigned? params args type = none) {definition : TypeId}
    {inner : List TypeId} {isOpen : Bool} (ho : d.origin = .instantiation definition inner isOpen) :
    substituteThroughout apply params args type s =
      (do
        let replaced ← inner.mapM (substituteThroughout apply params args)
        if replaced = inner then pure type else apply definition replaced : Build TypeId) s := by
  have ho' := origin?_of_get? hd
  rw [ho] at ho'
  have hinner : (inner.mapM fun arg =>
      if arg < type then substituteThroughout apply params args arg else pure arg) =
      inner.mapM (substituteThroughout apply params args) :=
    mapM_congr fun arg harg => by rw [if_pos (hs.args_known ho' harg).1]
  rw [substituteThroughout, hnone]
  dsimp only
  rw [ask_bind_of_get? hd, ho]
  dsimp only
  rw [hinner]

/-- In a type that is not open nothing is replaced: definitions are not applied to arguments, and
the store stays as it is. -/
theorem WellFormed.substituteThroughout_of_closed (hs : s.WellFormed)
    (hparams : ∀ p ∈ params, s.isParameter p = true) (htype : type < s.size)
    (hclosed : s.isOpen type = false) :
    substituteThroughout apply params args type s = (.ok type, s) := by
  induction type using Nat.strongRecOn with
  | ind type ih =>
    have hnone : assigned? params args type = none := assigned?_of_closed hparams hclosed
    obtain ⟨d, hd⟩ := exists_get? htype
    have ho := origin?_of_get? hd
    cases horigin : d.origin with
    | declared | typeParameter _ _ | methodParameter =>
      rw [substituteThroughout, hnone]
      dsimp only
      rw [ask_bind_of_get? hd, horigin]
      rfl
    | definition inner =>
      rw [isOpen, hd, Option.any_some, Descriptor.isOpen, Descriptor.hasOpenArguments, horigin,
        Bool.or_true] at hclosed
      cases hclosed
    | instantiation definition inner isOpen =>
      have hflag : isOpen = false := by
        rw [Store.isOpen, hd, Option.any_some, Descriptor.isOpen, Descriptor.hasOpenArguments,
          horigin, Bool.or_eq_false_iff] at hclosed
        exact hclosed.2
      rw [horigin] at ho
      -- the arguments are not open either, so each of them stays
      have hinner : inner.mapM (substituteThroughout apply params args) s = (.ok inner, s) := by
        refine mapM_eq_ok (List.forall₂_same.mpr fun arg harg => ?_)
        obtain ⟨hlt, hknown⟩ := hs.args_known ho harg
        exact ih arg hlt hknown (hs.isOpen_of_mem ho hflag harg)
      rw [substituteThroughout_instantiation hs hd hnone horigin, Build.bind_of_ok hinner,
        if_pos rfl]
      rfl

/-! ## The same replacement -/

/-- Operations that do the same on every entry of a list, whatever the entries before have left, do
the same on the list. -/
theorem mapM_eq_of_inv {α β : Type} {f g : α → Build β} (inv : Store → Prop) :
    ∀ {as : List α} {s : Store}, inv s →
      (∀ a ∈ as, ∀ t, inv t → f a t = g a t ∧ (g a).Ends t (fun _ u => inv u) fun _ => True) →
      as.mapM f s = as.mapM g s
  | [], _, _, _ => rfl
  | a :: as, s, hs, h => by
    obtain ⟨hsame, hends⟩ := h a List.mem_cons_self s hs
    rw [List.mapM_cons, List.mapM_cons, Build.bind_apply, Build.bind_apply, hsame]
    rcases hrun : g a s with ⟨_ | b, t⟩
    · rfl
    · dsimp only
      rw [Build.bind_apply, Build.bind_apply, mapM_eq_of_inv inv (hends.of_ok hrun)
        fun a' ha' => h a' (List.mem_cons_of_mem _ ha')]

/-- Whether the flag is regarded or not, the replacement is the same. -/
theorem substituteThroughout_eq (happly : Applies pending apply) (hs : s.Consistent pending)
    (hparams : ∀ p ∈ params, s.isParameter p = true) (hargs : ∀ arg ∈ args, arg < s.size)
    (htype : type < s.size) :
    substituteThroughout apply params args type s = substitute apply params args type s := by
  induction type using Nat.strongRecOn generalizing s with
  | ind type ih =>
    have hwf := hs.wellFormed
    obtain ⟨d, hd⟩ := exists_get? htype
    have ho := origin?_of_get? hd
    cases hnone : assigned? params args type with
    | some arg =>
      rw [substitute_of_assigned hnone, substituteThroughout, hnone]
    | none =>
    rcases d.hasOpenArguments_cases with hclosed | ⟨inner, horigin⟩ | ⟨definition, inner, horigin⟩
    · rw [substitute_of_closed hd hnone hclosed]
      by_cases hparameter : s.isParameter type = true
      · -- a parameter to which nothing is assigned has no arguments
        rw [substituteThroughout, hnone]
        dsimp only
        rw [ask_bind_of_get? hd]
        have hleaf := hwf.definitionOf?_parameter hparameter
        rw [definitionOf?_eq_origin?, ho] at hleaf
        cases horigin : d.origin with
        | declared | typeParameter _ _ | methodParameter => rfl
        | definition _ | instantiation _ _ _ =>
          rw [horigin] at hleaf
          cases hleaf
      · refine hwf.substituteThroughout_of_closed hparams htype ?_
        rw [isParameter, hd, Option.any_some, Bool.not_eq_true] at hparameter
        rw [isOpen, hd, Option.any_some, Descriptor.isOpen, hparameter, hclosed, Bool.false_or]
    · rw [substitute_definition hd hnone horigin, substituteThroughout, hnone]
      dsimp only
      rw [ask_bind_of_get? hd, horigin]
    · rw [substitute_instantiation hwf hd hnone horigin,
        substituteThroughout_instantiation hwf hd hnone horigin]
      rw [horigin] at ho
      have hinner : inner.mapM (substituteThroughout apply params args) s =
          inner.mapM (substitute apply params args) s := by
        refine mapM_eq_of_inv (fun t => t.Consistent pending ∧ s.Builds t)
          ⟨hs, hwf.closed.builds_refl⟩ ?_
        rintro arg harg t ⟨ht, hst⟩
        obtain ⟨hlt, hknown⟩ := hwf.args_known ho harg
        have hkeeps := hst.keepsOutlines
        exact ⟨ih arg hlt ht (hkeeps.all_isParameter hparams) (hkeeps.all_lt hargs)
            (Nat.lt_of_lt_of_le hknown hst.size_le),
          hst.substitute_goesOn hwf ht happly hparams hargs hknown⟩
      rw [Build.bind_apply, Build.bind_apply, hinner]

/-! ## Reachable stores -/

/-- The flag tells which types lead to a generic parameter, and replacement of parameters may rely
on it. -/
structure HasExactFlags (s : Store) : Prop where
  isOpen_iff : ∀ type < s.size,
    (s.isOpen type = true ↔ ∃ param, s.LeadsDownTo type param ∧ s.isParameter param = true)
  /-- Without the flag, nothing comes of looking into a type that is not open. -/
  of_closed : ∀ (apply : TypeId → List TypeId → Build TypeId) (params args : List TypeId),
    (∀ p ∈ params, s.isParameter p = true) → ∀ type < s.size, s.isOpen type = false →
      substitute apply params args type s = (.ok type, s) ∧
        substituteThroughout apply params args type s = (.ok type, s)
  /-- Without the flag, the answers, the errors and the stores are the same for all types. -/
  substitute_eq : ∀ (levels : Nat) (params args : List TypeId),
    (∀ p ∈ params, s.isParameter p = true) → (∀ arg ∈ args, arg < s.size) → ∀ type < s.size,
      substituteThroughout (instantiateWithin levels) params args type s =
        substitute (instantiateWithin levels) params args type s

theorem Consistent.exactFlags (hs : s.Consistent pending) : s.HasExactFlags where
  isOpen_iff _ htype := hs.wellFormed.isOpen_iff_leadsDownTo htype
  of_closed apply params args hparams type htype hclosed := by
    obtain ⟨d, hd⟩ := exists_get? htype
    have hnone : d.hasOpenArguments = false := by
      rw [isOpen, hd, Option.any_some, Descriptor.isOpen, Bool.or_eq_false_iff] at hclosed
      exact hclosed.2
    exact ⟨substitute_of_closed hd (assigned?_of_closed hparams hclosed) hnone,
      hs.wellFormed.substituteThroughout_of_closed hparams htype hclosed⟩
  substitute_eq levels params args hparams hargs type htype :=
    substituteThroughout_eq (instantiateWithin_applies levels pending) hs hparams hargs htype

/-- In a reachable store the flag is exact. So it is in every store that instantiations lead to from
there, also while supertypes of new types are still to be computed. -/
theorem Reachable.hasExactFlags (hs : s.Reachable) :
    s.HasExactFlags ∧ ∀ t pending, s.Builds t → t.Consistent pending → t.HasExactFlags :=
  ⟨hs.coherent.exactFlags, fun _ _ _ ht => ht.exactFlags⟩

/-- The definition `Pair<K, V>`, a class `A`, and a definition `Both<T>` below
`Pair<T, Pair<A, A>>`. -/
def halfOpen : Store :=
  Store.empty.afterAll
    [.declare { Declaration.plain .classType "Pair" with parameters := ["K", "V"] },
      .declare (Declaration.plain .classType "A"),
      .declare { Declaration.plain .classType "Both" with
        parameters := ["T"]
        base := some "Pair<T, Pair<A, A>>" }]

theorem reachable_halfOpen : halfOpen.Reachable := Reachable.empty.afterAll _

/-- The type `Pair<T, Pair<A, A>>` leads to a parameter. Its argument `Pair<A, A>` does not, and
stays when `T` is replaced by `A`, as it does if the flag is not regarded. -/
theorem hasExactFlags_halfOpen :
    (∃ param, halfOpen.LeadsDownTo 7 param ∧ halfOpen.isParameter param = true) ∧
      substituteThroughout (instantiateWithin 3) [5] [3] 6 halfOpen = (.ok 6, halfOpen) ∧
      (substituteThroughout (instantiateWithin 3) [5] [3] 7 halfOpen).1 = .ok 8 := by
  have hflags := reachable_halfOpen.hasExactFlags.1
  have hparams : ∀ p ∈ [5], halfOpen.isParameter p = true := by decide +kernel
  have hargs : ∀ arg ∈ [3], arg < halfOpen.size := by decide +kernel
  refine ⟨(hflags.isOpen_iff 7 (by decide +kernel)).mp (by decide +kernel), ?_, ?_⟩
  · exact (hflags.of_closed _ [5] [3] hparams 6 (by decide +kernel) (by decide +kernel)).2
  · rw [hflags.substitute_eq 3 [5] [3] hparams hargs 7 (by decide +kernel)]
    decide +kernel

end NominalTypes.Store
