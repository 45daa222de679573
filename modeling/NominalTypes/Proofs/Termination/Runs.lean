import NominalTypes.Proofs.Building.Arguments
import NominalTypes.Proofs.Building.Resolution

/-!
# Runs that may need more calls than they have

An operation on a store always has an end, for its definition is bounded in one way or another. A
traced run is the same recursion with another bound, which has nothing to do with what it works on:
so many calls may be nested in one another. A run that needs more has no result. On its way a run
takes down the moments that it passes, so that it can be said what holds in the middle of it.

- `Traced`, `Traced.step`, `Traced.atomic`: traced runs, and how they are put together.
- `Moment.IsSafe`: no type is reached from itself by following arguments, and requests for
  instantiations are not nested more deeply than the limit allows.
- `Traced.Follows`: with enough calls, whatever the number, the run comes to the end of an
  operation, through safe moments only. The rules go along with the way operations are put together
  (`Traced.Follows.bind`, `Traced.follows_mapM`).
-/

namespace NominalTypes

/-- How deeply requests for instantiations are nested at a time, and the store then. -/
structure Moment where
  depth : Nat
  store : Store

/-- How far a run has come: the present store, and the moments before, the last one first. -/
structure Progress where
  store : Store
  past : List Moment

/-- Runs on a store that may fail, and that take down the moments they pass. A run that is given up
has no result. -/
abbrev Traced := ExceptT StoreError (StateT Progress Option)

/-- No type is reached from itself by following arguments, and there is at most one request beyond
those that may be nested, which fails. -/
structure Moment.IsSafe (moment : Moment) : Prop where
  wellFounded : WellFounded moment.store.IsArgument
  depth_le : moment.depth ≤ maxInstantiationDepth + 1

namespace Traced

open Build (Ends)

variable {α β : Type} {s t : Store} {depth : Nat} {run : Nat → Traced α}
  {operation operation' : Build α}

/-- A run of one step, after which there is a new moment. -/
def step (depth : Nat) (operation : Build α) : Traced α := fun progress =>
  match operation progress.store with
  | (outcome, t) => some (outcome, ⟨t, ⟨depth, t⟩ :: progress.past⟩)

/-- A run that is given up, as there are no calls left. -/
def givenUp : Traced α := fun _ => none

/-- The run done as a whole or not at all. -/
def atomic (run : Traced α) : Traced α := fun progress =>
  match run progress with
  | none => none
  | some (.ok a, later) => some (.ok a, later)
  | some (.error error, later) =>
    let t := later.store.rollback progress.store.size
    some (.error error, ⟨t, ⟨0, t⟩ :: later.past⟩)

/-- From the store `s`, the run comes to the end that the operation has, through safe moments. It
does so with any number of nested calls that is large enough, and always in the same way. -/
def Follows (run : Nat → Traced α) (operation : Build α) (s : Store) : Prop :=
  ∃ (enough : Nat) (moments : List Moment), (∀ moment ∈ moments, moment.IsSafe) ∧
    ∀ calls ≥ enough, ∀ past,
      run calls ⟨s, past⟩ = some ((operation s).1, ⟨(operation s).2, moments ++ past⟩)

/-! ## Rules -/

theorem bind_apply (run : Traced α) (next : α → Traced β) (progress : Progress) :
    (run >>= next) progress =
      match run progress with
      | none => none
      | some (.ok a, later) => next a later
      | some (.error error, later) => some (.error error, later) := by
  show (run progress).bind (fun result => ExceptT.bindCont next result.1 result.2) = _
  rcases run progress with _ | ⟨_ | _, _⟩ <;> rfl

namespace Follows

theorem congr (h : Follows run operation' s) (heq : operation s = operation' s) :
    Follows run operation s := by
  unfold Follows at h ⊢
  rwa [heq]

/-- A call needs one more than what is nested in it. -/
theorem of_succ (h : Follows (fun calls => run (calls + 1)) operation s) :
    Follows run operation s := by
  obtain ⟨enough, moments, hsafe, hrun⟩ := h
  refine ⟨enough + 1, moments, hsafe, fun calls hcalls => ?_⟩
  cases calls with
  | zero => exact absurd hcalls (Nat.not_succ_le_zero enough)
  | succ calls => exact hrun calls (Nat.le_of_succ_le_succ hcalls)

/-- A sequence is followed part by part. -/
theorem bind {ok : α → Store → Prop} {failed : Store → Prop} {next : Nat → α → Traced β}
    {next' : α → Build β} (h : Follows run operation s) (hends : operation.Ends s ok failed)
    (hnext : ∀ a t, ok a t → Follows (fun calls => next calls a) (next' a) t) :
    Follows (fun calls => run calls >>= next calls) (operation >>= next') s := by
  obtain ⟨enough, moments, hsafe, hrun⟩ := h
  unfold Follows
  rw [Build.bind_apply]
  rcases hoperation : operation s with ⟨_ | a, t⟩
  · rw [hoperation] at hrun
    refine ⟨enough, moments, hsafe, fun calls hcalls past => ?_⟩
    dsimp only
    rw [bind_apply, hrun calls hcalls past]
  · obtain ⟨enough', later, hlater, hnext⟩ := hnext a t (hends.of_ok hoperation)
    rw [hoperation] at hrun
    refine ⟨max enough enough', later ++ moments, List.forall_mem_append.mpr ⟨hlater, hsafe⟩, ?_⟩
    intro calls hcalls past
    obtain ⟨hcalls, hcalls'⟩ := Nat.max_le.mp hcalls
    dsimp only
    rw [bind_apply, hrun calls hcalls past, List.append_assoc]
    exact hnext calls hcalls' (moments ++ past)

/-- What comes to an answer at once may be left out of the operation. -/
theorem bind_pure {a : α} {next : Nat → α → Traced β} {operation : Build β}
    (h : Follows run (pure a) s) (hnext : Follows (fun calls => next calls a) operation s) :
    Follows (fun calls => run calls >>= next calls) operation s := by
  have hends : (pure a : Build α).Ends s (fun b t => b = a ∧ t = s) fun _ => True :=
    Build.ends_pure ⟨rfl, rfl⟩
  have heq : operation s = (pure a >>= fun _ => operation : Build β) s := by
    rw [LawfulMonad.pure_bind]
  refine congr (h.bind hends ?_) heq
  rintro _ _ ⟨rfl, rfl⟩
  exact hnext

/-- What is asked of the store decides both how to go on and what is to be done. -/
theorem ite {c : Prop} [Decidable c] {run' : Nat → Traced α}
    (hpos : c → Follows run operation s) (hneg : ¬ c → Follows run' operation' s) :
    Follows (fun calls => if c then run calls else run' calls)
      (if c then operation else operation') s := by
  split
  · next hc => simpa only [if_pos hc] using hpos hc
  · next hc => simpa only [if_neg hc] using hneg hc

/-- A run done as a whole goes back to a store in which it has to be safe to be. -/
theorem atomic (h : Follows run operation s)
    (hback : ∀ error t, operation s = (.error error, t) →
      WellFounded (t.rollback s.size).IsArgument) :
    Follows (fun calls => (run calls).atomic) (Build.atomic operation) s := by
  obtain ⟨enough, moments, hsafe, hrun⟩ := h
  unfold Follows Traced.atomic Build.atomic ExceptT.run
  rcases hoperation : operation s with ⟨error | a, t⟩
  · have hlast := hback error t hoperation
    rw [hoperation] at hrun
    refine ⟨enough, ⟨0, t.rollback s.size⟩ :: moments,
      List.forall_mem_cons.mpr ⟨⟨hlast, Nat.zero_le _⟩, hsafe⟩, fun calls hcalls past => ?_⟩
    dsimp only
    rw [hrun calls hcalls past]
    rfl
  · rw [hoperation] at hrun
    refine ⟨enough, moments, hsafe, fun calls hcalls past => ?_⟩
    dsimp only
    rw [hrun calls hcalls past]

end Follows

theorem follows_pure (a : α) : Follows (fun _ => pure a) (pure a) s :=
  ⟨0, [], fun _ hmoment => (List.not_mem_nil hmoment).elim, fun _ _ _ => rfl⟩

/-- A step is safe if the store after it is. -/
theorem follows_step (hdepth : depth ≤ maxInstantiationDepth + 1)
    (ht : WellFounded (operation.after s).IsArgument) :
    Follows (fun _ => step depth operation) operation s :=
  ⟨0, [⟨depth, operation.after s⟩], List.forall_mem_singleton.mpr ⟨ht, hdepth⟩, fun _ _ _ => rfl⟩

/-- A step that does not change the store is safe if the store is. -/
theorem follows_step_of_ends {ok : α → Store → Prop} {failed : Store → Prop}
    (hdepth : depth ≤ maxInstantiationDepth + 1) (hends : operation.Ends s ok failed)
    (hok : ∀ a t, ok a t → WellFounded t.IsArgument)
    (hfailed : ∀ t, failed t → WellFounded t.IsArgument) :
    Follows (fun _ => step depth operation) operation s :=
  follows_step hdepth (hends.store hok hfailed)

theorem follows_set_bind {next : Nat → PUnit → Traced β} {next' : PUnit → Build β}
    (hdepth : depth ≤ maxInstantiationDepth + 1) (ht : WellFounded t.IsArgument)
    (hnext : Follows (fun calls => next calls ⟨⟩) (next' ⟨⟩) t) :
    Follows (fun calls => step depth (set t) >>= next calls) (set t >>= next') s := by
  have hstep : Follows (fun _ => step depth (set t : Build PUnit)) (set t) s :=
    follows_step hdepth ht
  have hends : (set t : Build PUnit).Ends s (fun _ u => u = t) fun _ => True := Build.ends_set rfl
  refine hstep.bind hends ?_
  rintro _ _ rfl
  exact hnext

theorem follows_modify_bind {f : Store → Store} {next : Nat → PUnit → Traced β}
    {next' : PUnit → Build β} (hdepth : depth ≤ maxInstantiationDepth + 1)
    (ht : WellFounded (f s).IsArgument)
    (hnext : Follows (fun calls => next calls ⟨⟩) (next' ⟨⟩) (f s)) :
    Follows (fun calls => step depth (modify f) >>= next calls) (modify f >>= next') s :=
  follows_set_bind hdepth ht hnext

/-- A run done for every entry of a list, with an invariant of the store. -/
theorem follows_mapM {f : Nat → α → Traced β} {g : α → Build β} (inv : Store → Prop) :
    ∀ {as : List α} {s : Store}, inv s →
      (∀ a ∈ as, ∀ t, inv t →
        Follows (fun calls => f calls a) (g a) t ∧
          (g a).Ends t (fun _ u => inv u) fun _ => True) →
      Follows (fun calls => as.mapM (f calls)) (as.mapM g) s
  | [], _, _, _ => follows_pure []
  | a :: as, s, hs, h => by
    obtain ⟨hfirst, hends⟩ := h a List.mem_cons_self s hs
    simp only [List.mapM_cons]
    refine hfirst.bind hends fun b t ht => ?_
    exact Follows.bind (follows_mapM inv ht fun a' ha' => h a' (List.mem_cons_of_mem _ ha'))
      (Build.ends_true _ _) fun bs u _ => follows_pure (b :: bs)

/-- A run done for every entry of a list that comes to an answer for each at once. -/
theorem follows_mapM_pure {f : Nat → α → Traced β} {g : α → β} {as : List α}
    (h : ∀ a ∈ as, Follows (fun calls => f calls a) (pure (g a)) s) :
    Follows (fun calls => as.mapM (f calls)) (pure (as.map g)) s := by
  rw [← List.mapM_pure]
  refine follows_mapM (· = s) rfl fun a ha t ht => ?_
  subst ht
  exact ⟨h a ha, Build.ends_pure rfl⟩

/-- A run done for an entry if there is one. -/
theorem follows_mapM_option {f : Nat → α → Traced β} {g : α → Build β} {o : Option α}
    (h : ∀ a, o = some a → Follows (fun calls => f calls a) (g a) s) :
    Follows (fun calls => o.mapM (f calls)) (o.mapM g) s := by
  cases o with
  | none => exact follows_pure none
  | some a =>
    show Follows (fun calls => some <$> f calls a) (some <$> g a) s
    simp only [map_eq_pure_bind]
    exact (h a rfl).bind (Build.ends_true _ _) fun b t _ => follows_pure (some b)

/-- A run done for every entry of a list, with an invariant that may speak of the entries still to
come. -/
theorem follows_forM {f : Nat → α → Traced PUnit} {g : α → Build PUnit}
    (inv : List α → Store → Prop)
    (h : ∀ a as t, inv (a :: as) t →
      Follows (fun calls => f calls a) (g a) t ∧
        (g a).Ends t (fun _ u => inv as u) fun _ => True) :
    ∀ {as : List α} {s : Store}, inv as s →
      Follows (fun calls => as.forM (f calls)) (as.forM g) s
  | [], _, _ => follows_pure PUnit.unit
  | a :: as, s, hs => by
    obtain ⟨hfirst, hends⟩ := h a as s hs
    show Follows (fun calls => f calls a >>= fun _ => as.forM (f calls))
      (g a >>= fun _ => as.forM g) s
    exact hfirst.bind hends fun _ t ht => follows_forM inv h ht

end Traced

end NominalTypes
