import Mathlib.Data.List.Forall2
import NominalTypes.Store.Basic

/-!
# How building operations end

A building operation ends with an answer or with an error, and leaves a store in either case.
`Build.Ends` states a condition for each of the two ends. Its rules follow the way operations are
put together, so that a statement about an operation is derived from those about its parts and no
proof has to look at the pair of outcome and store itself.

- `Build.Ends`: the condition.
- `Build.Ends.bind`, `Build.Ends.mono`: sequences, and weaker conditions.
- `Build.ends_mapM`: an operation done for every entry of a list, with an invariant of the store and
  a relation between entries and answers that later stores keep.
- `Build.ends_forM`: the same without answers, with an invariant that may depend on the entries
  still to come.
- `Build.FailsOnly`: the errors that an operation may end with.
- `Build.CarriesOver`: whenever one operation gives an answer, so does another one from a store of
  its own, and the two ends are related.
- `Build.CarriesOverUnless`: the same, but the other operation may fail for a given reason.
-/

namespace NominalTypes.Build

variable {α β : Type}

/-- From the store `s`, the operation ends with an answer and a store for which `ok` holds, or with
an error and a store for which `failed` holds. -/
def Ends (operation : Build α) (s : Store) (ok : α → Store → Prop) (failed : Store → Prop) :
    Prop :=
  match operation s with
  | (.ok a, t) => ok a t
  | (.error _, t) => failed t

section Sequences

variable {ε σ γ δ : Type} {operation : ExceptT ε (StateM σ) γ} {next : γ → ExceptT ε (StateM σ) δ}
  {s t u : σ}

theorem bind_apply (operation : ExceptT ε (StateM σ) γ) (next : γ → ExceptT ε (StateM σ) δ)
    (s : σ) : (operation >>= next) s =
      match operation s with
      | (.ok c, t) => next c t
      | (.error error, t) => (.error error, t) := by
  show ExceptT.bindCont next (operation s).1 (operation s).2 = _
  rcases operation s with ⟨_ | _, _⟩ <;> rfl

/-- A sequence gives an answer if its parts do, one after the other. -/
theorem bind_eq_ok_iff {result : δ} : (operation >>= next) s = (.ok result, u) ↔
    ∃ c t, operation s = (.ok c, t) ∧ next c t = (.ok result, u) := by
  rw [bind_apply]
  rcases operation s with ⟨error | c, t⟩
  · exact ⟨nofun, nofun⟩
  · refine ⟨fun h => ⟨c, t, rfl, h⟩, ?_⟩
    rintro ⟨_, _, heq, h⟩
    cases heq
    exact h

/-- It fails if its first part fails, or the second one after the first one. -/
theorem bind_eq_error_iff {error : ε} : (operation >>= next) s = (.error error, u) ↔
    operation s = (.error error, u) ∨
      ∃ c t, operation s = (.ok c, t) ∧ next c t = (.error error, u) := by
  rw [bind_apply]
  rcases operation s with ⟨error' | c, t⟩
  · constructor
    · intro h
      cases h
      exact .inl rfl
    · rintro (h | ⟨_, _, h, -⟩)
      · cases h
        rfl
      · cases h
  · refine ⟨fun h => .inr ⟨c, t, rfl, h⟩, ?_⟩
    rintro (h | ⟨_, _, heq, h⟩)
    · cases h
    · cases heq
      exact h

end Sequences

/-- What follows an operation goes on with its answer and with the store that it leaves. -/
theorem bind_of_ok {operation : Build α} {s t : Store} {a : α} (h : operation s = (.ok a, t))
    (next : α → Build β) : (operation >>= next) s = next a t := by
  rw [bind_apply, h]

theorem get_bind (next : Store → Build β) (s : Store) : (get >>= next) s = next s s :=
  bind_of_ok rfl next

theorem set_bind (t : Store) (next : PUnit → Build β) (s : Store) :
    (set t >>= next) s = next ⟨⟩ t :=
  bind_of_ok (rfl : (set t : Build PUnit) s = (.ok ⟨⟩, t)) next

theorem modify_bind (f : Store → Store) (next : PUnit → Build β) (s : Store) :
    (modify f >>= next) s = next ⟨⟩ (f s) :=
  bind_of_ok (rfl : (modify f : Build PUnit) s = (.ok ⟨⟩, f s)) next

/-- The answer of an operation may be dropped. -/
theorem after_dropped (operation : Build α) (s : Store) :
    (do let _ ← operation : Build Unit).after s = operation.after s := by
  show ((operation >>= fun _ => pure ()) s).2 = (operation s).2
  rw [bind_apply]
  rcases operation s with ⟨_ | _, _⟩ <;> rfl

namespace Ends

variable {operation : Build α} {s t : Store} {ok ok' : α → Store → Prop}
  {failed failed' : Store → Prop}

/-- What holds at the end of an operation that gave an answer. -/
theorem of_ok (h : operation.Ends s ok failed) {a : α} (hrun : operation s = (.ok a, t)) :
    ok a t := by
  unfold Ends at h
  rw [hrun] at h
  exact h

/-- What holds at the end of an operation that failed. -/
theorem of_error (h : operation.Ends s ok failed) {error : StoreError}
    (hrun : operation s = (.error error, t)) : failed t := by
  unfold Ends at h
  rw [hrun] at h
  exact h

/-- An operation that does not fail gives an answer. -/
theorem exists_ok (h : operation.Ends s ok fun _ => False) :
    ∃ a t, operation s = (.ok a, t) ∧ ok a t := by
  unfold Ends at h
  split at h
  · next a t hrun => exact ⟨a, t, hrun, h⟩
  · exact h.elim

/-- What holds of the store that an operation leaves in either case. -/
theorem store (h : operation.Ends s ok failed) {p : Store → Prop}
    (hok : ∀ a t, ok a t → p t) (hfailed : ∀ t, failed t → p t) : p (operation.after s) := by
  unfold Ends at h
  unfold after ExceptT.run
  split at h
  · next a t hrun => exact hrun ▸ hok a t h
  · next e t hrun => exact hrun ▸ hfailed t h

theorem mono (h : operation.Ends s ok failed) (hok : ∀ a t, ok a t → ok' a t)
    (hfailed : ∀ t, failed t → failed' t) : operation.Ends s ok' failed' := by
  unfold Ends at h ⊢
  split at h
  · next a t hrun => exact hok a t h
  · next e t hrun => exact hfailed t h

/-- Conditions may be shown one at a time. -/
theorem and (h : operation.Ends s ok failed) (h' : operation.Ends s ok' failed') :
    operation.Ends s (fun a t => ok a t ∧ ok' a t) fun t => failed t ∧ failed' t := by
  unfold Ends at *
  split at h
  · next a t hrun =>
    rw [hrun] at h'
    exact ⟨h, h'⟩
  · next e t hrun =>
    rw [hrun] at h'
    exact ⟨h, h'⟩

/-- Operations that do the same end the same way. -/
theorem congr {operation' : Build α} (h : operation'.Ends t ok failed)
    (hrun : operation s = operation' t) : operation.Ends s ok failed := by
  unfold Ends at h ⊢
  rwa [hrun]

/-- A sequence ends as its second part does from where the first one ends. -/
theorem bind {next : α → Build β} {done : β → Store → Prop}
    (h : operation.Ends s (fun a t => (next a).Ends t done failed) failed) :
    (operation >>= next).Ends s done failed := by
  unfold Ends at h
  show (match (operation >>= next) s with
    | (.ok b, t) => done b t
    | (.error _, t) => failed t)
  rw [bind_apply]
  rcases hrun : operation s with ⟨error | a, t⟩
  all_goals
    rw [hrun] at h
    exact h

end Ends

variable {s : Store} {ok : α → Store → Prop} {failed : Store → Prop}

theorem ends_pure {a : α} (h : ok a s) : (pure a : Build α).Ends s ok failed := h

theorem ends_true (operation : Build α) (s : Store) :
    operation.Ends s (fun _ _ => True) fun _ => True := by
  unfold Ends
  split <;> trivial

theorem ends_throw {error : StoreError} (h : failed s) :
    (throw error : Build α).Ends s ok failed := h

theorem ends_get {ok : Store → Store → Prop} (h : ok s s) : (get : Build Store).Ends s ok failed :=
  h

theorem ends_set {ok : Unit → Store → Prop} {t : Store} (h : ok () t) :
    (set t : Build Unit).Ends s (fun a => ok a) failed := h

theorem ends_modify {ok : Unit → Store → Prop} {f : Store → Store} (h : ok () (f s)) :
    (modify f : Build Unit).Ends s ok failed := h

/-- A question leaves the store as it is. -/
theorem ends_ask {question : Store → Except RelationError α}
    (hok : ∀ a, question s = .ok a → ok a s) (hfailed : failed s) :
    (ask question).Ends s ok failed := by
  refine Ends.bind (ends_get ?_)
  cases h : question s with
  | ok a => exact hok a h
  | error e => exact hfailed

/-- A question that has an answer does not fail. -/
theorem ends_ask_of_ok {question : Store → Except RelationError α} {a : α}
    (hanswer : question s = .ok a) (h : ok a s) : (ask question).Ends s ok failed := by
  refine Ends.bind (ends_get ?_)
  rw [hanswer]
  exact h

variable {inv : Store → Prop}

/-- An operation done for every entry of a list. Each time it keeps the invariant, takes one `step`
and leaves the entry and its answer related; steps compose and keep what is related. -/
theorem ends_mapM {f : α → Build β} {related : Store → α → β → Prop} (step : Store → Store → Prop)
    (refl : ∀ t, inv t → step t t) (trans : ∀ {t u v}, step t u → step u v → step t v)
    (keep : ∀ t u a b, inv t → step t u → related t a b → related u a b) :
    ∀ {as : List α} {s : Store}, inv s →
      (∀ a ∈ as, ∀ t, inv t → step s t →
        (f a).Ends t (fun b u => inv u ∧ step t u ∧ related u a b) failed) →
      (as.mapM f).Ends s
        (fun bs t => inv t ∧ step s t ∧ List.Forall₂ (related t) as bs) failed
  | [], s, hs, _ => by
    rw [List.mapM_nil]
    exact ends_pure ⟨hs, refl s hs, .nil⟩
  | a :: as, s, hs, h => by
    rw [List.mapM_cons]
    refine Ends.bind ((h a List.mem_cons_self s hs (refl s hs)).mono ?_ fun _ => id)
    rintro b t ⟨ht, hst, hab⟩
    have hrest : (as.mapM f).Ends t
        (fun bs u => inv u ∧ step t u ∧ List.Forall₂ (related u) as bs) failed :=
      ends_mapM step refl trans keep ht fun a' ha' u hu htu =>
        h a' (List.mem_cons_of_mem _ ha') u hu (trans hst htu)
    refine Ends.bind (hrest.mono ?_ fun _ => id)
    rintro bs u ⟨hu, htu, hrel⟩
    exact ends_pure ⟨hu, trans hst htu, List.Forall₂.cons (keep t u a b ht htu hab) hrel⟩

/-- The same with an invariant alone. -/
theorem ends_mapM_inv {f : α → Build β} {as : List α} (hs : inv s)
    (h : ∀ a ∈ as, ∀ t, inv t → (f a).Ends t (fun _ u => inv u) failed) :
    (as.mapM f).Ends s (fun _ t => inv t) failed := by
  have hrun : (as.mapM f).Ends s
      (fun bs t => inv t ∧ True ∧ List.Forall₂ (fun _ _ => True) as bs) failed :=
    ends_mapM (fun _ _ => True) (fun _ _ => trivial) (fun _ _ => trivial)
      (fun _ _ _ _ _ _ => id) hs fun a ha t ht _ =>
        (h a ha t ht).mono (fun _ _ hu => ⟨hu, trivial, trivial⟩) fun _ => id
  exact hrun.mono (fun _ _ ht => ht.1) fun _ => id

/-- An operation done for an entry if there is one. -/
theorem ends_mapM_option {f : α → Build β} {ok : Option β → Store → Prop} {o : Option α} {s : Store}
    (hnone : o = none → ok none s)
    (hsome : ∀ a, o = some a → (f a).Ends s (fun b t => ok (some b) t) failed) :
    (o.mapM f).Ends s ok failed := by
  cases o with
  | none => exact ends_pure (hnone rfl)
  | some a =>
    show (some <$> f a).Ends s ok failed
    rw [map_eq_pure_bind]
    exact Ends.bind ((hsome a rfl).mono (fun b t hb => ends_pure hb) fun _ => id)

/-- An operation done for every entry of a list, with an invariant that may speak of the entries
still to come. -/
theorem ends_forM {f : α → Build PUnit} (inv : List α → Store → Prop)
    (h : ∀ a as t, inv (a :: as) t → (f a).Ends t (fun _ u => inv as u) failed) :
    ∀ {as : List α} {s : Store}, inv as s → (as.forM f).Ends s (fun _ t => inv [] t) failed
  | [], s, hs => ends_pure hs
  | a :: as, s, hs => by
    show (f a >>= fun _ => as.forM f).Ends s _ failed
    exact Ends.bind ((h a as s hs).mono (fun _ t ht => ends_forM inv h ht) fun _ => id)

/-! ## Errors -/

/-- From the store `s`, the operation fails with an error of the given sort, if it fails. -/
def FailsOnly (operation : Build α) (s : Store) (reason : StoreError → Prop) : Prop :=
  ∀ error t, operation s = (.error error, t) → reason error

section FailsOnly

variable {reason : StoreError → Prop}

theorem FailsOnly.congr {operation operation' : Build α} {t : Store}
    (h : operation'.FailsOnly t reason) (hrun : operation s = operation' t) :
    operation.FailsOnly s reason := fun error u herror => h error u (hrun.symm.trans herror)

theorem FailsOnly.bind {operation : Build α} {next : α → Build β}
    (h : operation.FailsOnly s reason) (hends : operation.Ends s ok failed)
    (hnext : ∀ a t, ok a t → (next a).FailsOnly t reason) :
    (operation >>= next).FailsOnly s reason := by
  intro error t hrun
  rcases bind_eq_error_iff.mp hrun with hfirst | ⟨a, u, hfirst, hrest⟩
  · exact h _ _ hfirst
  · exact hnext a u (hends.of_ok hfirst) error t hrest

/-- What follows may be looked at on its own if it has no other reason to fail from any store. -/
theorem FailsOnly.bind_of_forall {operation : Build α} {next : α → Build β}
    (h : operation.FailsOnly s reason) (hnext : ∀ a t, (next a).FailsOnly t reason) :
    (operation >>= next).FailsOnly s reason :=
  h.bind (operation.ends_true s) fun a t _ => hnext a t

theorem failsOnly_pure {a : α} : (pure a : Build α).FailsOnly s reason := fun _ _ hrun => by
  cases hrun

theorem failsOnly_modify {f : Store → Store} : (modify f : Build Unit).FailsOnly s reason :=
  fun _ _ hrun => by cases hrun

theorem failsOnly_mapM {f : α → Build β} (inv : Store → Prop) :
    ∀ {as : List α} {s : Store}, inv s →
      (∀ a ∈ as, ∀ t, inv t →
        (f a).FailsOnly t reason ∧ (f a).Ends t (fun _ u => inv u) fun _ => True) →
      (as.mapM f).FailsOnly s reason
  | [], s, _, _ => by
    rw [List.mapM_nil]
    exact failsOnly_pure
  | a :: as, s, hs, h => by
    rw [List.mapM_cons]
    obtain ⟨hfirst, hends⟩ := h a List.mem_cons_self s hs
    refine hfirst.bind hends fun b t ht => ?_
    exact (failsOnly_mapM inv ht fun a' ha' => h a' (List.mem_cons_of_mem _ ha')).bind_of_forall
      fun _ _ => failsOnly_pure

theorem failsOnly_mapM_option {f : α → Build β} {o : Option α}
    (h : ∀ a, o = some a → (f a).FailsOnly s reason) : (o.mapM f).FailsOnly s reason := by
  cases o with
  | none => exact failsOnly_pure
  | some a =>
    show (some <$> f a).FailsOnly s reason
    rw [map_eq_pure_bind]
    exact (h a rfl).bind_of_forall fun _ _ => failsOnly_pure

end FailsOnly

/-! ## Two operations side by side -/

/-- If the first operation gives an answer from the store `s`, then the second one gives an answer
from the store `t`, and the relation holds of both ends. -/
def CarriesOver (first : Build α) (s : Store) (second : Build β) (t : Store)
    (related : α → Store → β → Store → Prop) : Prop :=
  first.Ends s (fun a u => second.Ends t (fun b v => related a u b v) fun _ => False) fun _ => True

namespace CarriesOver

variable {γ δ : Type} {first : Build α} {second : Build β} {t : Store}
  {related related' : α → Store → β → Store → Prop}

theorem of_ok (h : first.CarriesOver s second t related) {a : α} {u : Store}
    (hrun : first s = (.ok a, u)) : ∃ b v, second t = (.ok b, v) ∧ related a u b v :=
  (Ends.of_ok h hrun).exists_ok

theorem mono (h : first.CarriesOver s second t related)
    (himp : ∀ a u b v, related a u b v → related' a u b v) :
    first.CarriesOver s second t related' :=
  Ends.mono h (fun a u hu => hu.mono (fun b v hv => himp a u b v hv) fun _ => id) fun _ => id

/-- What holds of each of the two operations by itself holds too. -/
theorem and (h : first.CarriesOver s second t related) {ok : α → Store → Prop}
    {ok' : β → Store → Prop} {failed failed' : Store → Prop} (hfirst : first.Ends s ok failed)
    (hsecond : second.Ends t ok' failed') :
    first.CarriesOver s second t fun a u b v => related a u b v ∧ ok a u ∧ ok' b v := by
  refine (Ends.and h hfirst).mono ?_ fun _ _ => trivial
  rintro a u ⟨hu, hau⟩
  exact (hu.and hsecond).mono (fun b v hv => ⟨hv.1, hau, hv.2⟩) fun _ hv => hv.1

theorem congr {first' : Build α} {second' : Build β} {s' t' : Store}
    (h : first'.CarriesOver s' second' t' related) (hfirst : first s = first' s')
    (hsecond : second t = second' t') : first.CarriesOver s second t related :=
  Ends.congr (Ends.mono h (fun _ _ hu => hu.congr hsecond) fun _ => id) hfirst

/-- Sequences are compared part by part. -/
theorem bind {next : α → Build γ} {next' : β → Build δ} {done : γ → Store → δ → Store → Prop}
    (h : first.CarriesOver s second t fun a u b v => (next a).CarriesOver u (next' b) v done) :
    (first >>= next).CarriesOver s (second >>= next') t done := by
  refine Ends.bind (Ends.mono h ?_ fun _ => id)
  intro a u hu
  obtain ⟨b, v, hrun, hnext⟩ := hu.exists_ok
  exact Ends.mono hnext (fun c w hw => hw.congr (bind_of_ok hrun next')) fun _ => id

end CarriesOver

theorem carriesOver_pure {related : α → Store → β → Store → Prop} {t : Store} {a : α} {b : β}
    (h : related a s b t) : (pure a : Build α).CarriesOver s (pure b) t related :=
  ends_pure (ends_pure h)

/-- The same list is gone through on both sides, with a relation of the two stores that each entry
keeps. -/
theorem carriesOver_mapM {γ : Type} {f : α → Build β} {f' : α → Build γ}
    (inv : Store → Store → Prop) :
    ∀ {as : List α} {s t : Store}, inv s t →
      (∀ a ∈ as, ∀ s t, inv s t → (f a).CarriesOver s (f' a) t fun _ u _ v => inv u v) →
      (as.mapM f).CarriesOver s (as.mapM f') t fun _ u _ v => inv u v
  | [], s, t, h, _ => by
    rw [List.mapM_nil, List.mapM_nil]
    exact carriesOver_pure h
  | a :: as, s, t, h, hf => by
    rw [List.mapM_cons, List.mapM_cons]
    refine CarriesOver.bind ((hf a List.mem_cons_self s t h).mono fun b u c v huv => ?_)
    have hrest : (as.mapM f).CarriesOver u (as.mapM f') v fun _ u _ v => inv u v :=
      carriesOver_mapM inv huv fun a' ha' => hf a' (List.mem_cons_of_mem _ ha')
    exact CarriesOver.bind (hrest.mono fun _ _ _ _ huv => carriesOver_pure huv)

theorem carriesOver_mapM_option {γ : Type} {f : α → Build β} {f' : α → Build γ}
    (inv : Store → Store → Prop) {o : Option α} {s t : Store} (h : inv s t)
    (hf : ∀ a, o = some a → (f a).CarriesOver s (f' a) t fun _ u _ v => inv u v) :
    (o.mapM f).CarriesOver s (o.mapM f') t fun _ u _ v => inv u v := by
  cases o with
  | none => exact carriesOver_pure h
  | some a =>
    show (some <$> f a).CarriesOver s (some <$> f' a) t _
    rw [map_eq_pure_bind, map_eq_pure_bind]
    exact CarriesOver.bind ((hf a rfl).mono fun _ _ _ _ huv => carriesOver_pure huv)

/-- If the first operation gives an answer from the store `s`, then from the store `t` the second
one gives an answer too, and the relation holds of both ends, or fails for the given reason. -/
def CarriesOverUnless (reason : StoreError → Prop) (first : Build α) (s : Store) (second : Build β)
    (t : Store) (related : α → Store → β → Store → Prop) : Prop :=
  ∀ a u, first s = (.ok a, u) →
    (∃ b v, second t = (.ok b, v) ∧ related a u b v) ∨
      ∃ error v, second t = (.error error, v) ∧ reason error

namespace CarriesOverUnless

variable {γ δ : Type} {reason : StoreError → Prop} {first : Build α} {second : Build β} {t : Store}
  {related related' : α → Store → β → Store → Prop}

theorem mono (h : first.CarriesOverUnless reason s second t related)
    (himp : ∀ a u b v, related a u b v → related' a u b v) :
    first.CarriesOverUnless reason s second t related' := fun a u hrun =>
  (h a u hrun).imp_left fun ⟨b, v, hsecond, hrelated⟩ => ⟨b, v, hsecond, himp a u b v hrelated⟩

/-- What holds of each of the two operations by itself holds too. -/
theorem and (h : first.CarriesOverUnless reason s second t related) {ok : α → Store → Prop}
    {ok' : β → Store → Prop} {failed failed' : Store → Prop} (hfirst : first.Ends s ok failed)
    (hsecond : second.Ends t ok' failed') :
    first.CarriesOverUnless reason s second t fun a u b v => related a u b v ∧ ok a u ∧ ok' b v :=
  fun a u hrun => (h a u hrun).imp_left fun ⟨b, v, hrun', hrelated⟩ =>
    ⟨b, v, hrun', hrelated, hfirst.of_ok hrun, hsecond.of_ok hrun'⟩

theorem congr {first' : Build α} {second' : Build β} {s' t' : Store}
    (h : first'.CarriesOverUnless reason s' second' t' related) (hfirst : first s = first' s')
    (hsecond : second t = second' t') : first.CarriesOverUnless reason s second t related := by
  intro a u hrun
  rw [hsecond]
  exact h a u (hfirst ▸ hrun)

/-- Sequences are compared part by part. -/
theorem bind {next : α → Build γ} {next' : β → Build δ} {done : γ → Store → δ → Store → Prop}
    (h : first.CarriesOverUnless reason s second t fun a u b v =>
      (next a).CarriesOverUnless reason u (next' b) v done) :
    (first >>= next).CarriesOverUnless reason s (second >>= next') t done := by
  intro c w hrun
  obtain ⟨a, u, hfirst, hrun⟩ := bind_eq_ok_iff.mp hrun
  rcases h a u hfirst with ⟨b, v, hsecond, hnext⟩ | ⟨error, v, hsecond, hreason⟩
  · rw [bind_of_ok hsecond]
    exact hnext c w hrun
  · exact .inr ⟨error, v, by rw [bind_apply, hsecond], hreason⟩

end CarriesOverUnless

section CarriesOverUnless

variable {reason : StoreError → Prop} {related : α → Store → β → Store → Prop} {t : Store}

theorem carriesOverUnless_pure {a : α} {b : β} (h : related a s b t) :
    (pure a : Build α).CarriesOverUnless reason s (pure b) t related := by
  intro a' u hrun
  cases hrun
  exact .inl ⟨b, t, rfl, h⟩

theorem carriesOverUnless_throw (error : StoreError) (second : Build β) :
    (throw error : Build α).CarriesOverUnless reason s second t related := by
  intro a u hrun
  cases hrun

/-- An operation that cannot fail is compared by what holds at its end. -/
theorem carriesOverUnless_of_ends {first : Build α} {second : Build β} {ok' : β → Store → Prop}
    (hfirst : first.Ends s ok failed) (hsecond : second.Ends t ok' fun _ => False) :
    first.CarriesOverUnless reason s second t fun a u b v => ok a u ∧ ok' b v := by
  intro a u hrun
  obtain ⟨b, v, hrun', hok⟩ := hsecond.exists_ok
  exact .inl ⟨b, v, hrun', hfirst.of_ok hrun, hok⟩

end CarriesOverUnless

end NominalTypes.Build
