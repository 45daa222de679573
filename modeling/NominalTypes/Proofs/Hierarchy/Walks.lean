import Mathlib.Data.List.Forall2
import NominalTypes.Hierarchy.InterfaceDepth
import NominalTypes.Proofs.Hierarchy.Supertypes

/-!
# Walks up the hierarchy have an end and an answer

A question fails only where it meets a handle of no type. From a known type a walk meets supertypes
only, and these are known, so it always has an answer.

- `Answered`: the question has an answer. Its rules follow the way questions are put together.
- `Store.WellFormed.answered_baseChain`, `Store.WellFormed.answered_ancestry`,
  `Store.WellFormed.answered_interfaceDepth`, `Store.WellFormed.answered_nearestBuiltFrom`: the
  walks.
- `Store.run_interfaceDepthWithin_succ`: one interface of the walk that computes depths.
-/

namespace NominalTypes

/-- The question has an answer, and not an error. -/
def Answered {α : Type} (question : Except RelationError α) : Prop := ∃ a, question = .ok a

section Answered

variable {α β γ : Type} {question : Except RelationError α}

theorem answered_ok (a : α) : Answered (.ok a) := ⟨a, rfl⟩

theorem Answered.bind {next : α → Except RelationError β} (h : Answered question)
    (hnext : ∀ a, question = .ok a → Answered (next a)) : Answered (question >>= next) := by
  obtain ⟨a, ha⟩ := h
  obtain ⟨b, hb⟩ := hnext a ha
  exact ⟨b, bind_eq_ok.mpr ⟨a, ha, hb⟩⟩

theorem Answered.map (h : Answered question) (f : α → β) : Answered (question.map f) := by
  obtain ⟨a, ha⟩ := h
  exact ⟨f a, by rw [ha]; rfl⟩

/-- Answers to a question that is asked for every entry of a list, each related to its entry. -/
theorem exists_mapM {f : α → Except RelationError β} {r : α → β → Prop} {as : List α}
    (h : ∀ a ∈ as, ∃ b, f a = .ok b ∧ r a b) :
    ∃ bs, as.mapM f = .ok bs ∧ List.Forall₂ r as bs := by
  induction as with
  | nil => exact ⟨[], rfl, .nil⟩
  | cons a as ih =>
    obtain ⟨hhead, htail⟩ := List.forall_mem_cons.mp h
    obtain ⟨b, hb, hr⟩ := hhead
    obtain ⟨bs, hbs, hrs⟩ := ih htail
    refine ⟨b :: bs, ?_, .cons hr hrs⟩
    rw [List.mapM_cons, hb, hbs]
    rfl

/-- A question that is asked for every entry of a list has an answer if it has one for each. -/
theorem answered_mapM {f : α → Except RelationError β} {as : List α}
    (h : ∀ a ∈ as, Answered (f a)) : Answered (as.mapM f) := by
  obtain ⟨bs, hbs, -⟩ := exists_mapM fun a ha => by
    obtain ⟨b, hb⟩ := h a ha
    exact ⟨b, hb, hb⟩
  exact ⟨bs, hbs⟩

/-- The same where the entries share a state: if every step keeps an invariant of the state, the
loop does. -/
theorem exists_run_mapM {f : α → StateT γ (Except RelationError) β} {inv : γ → Prop}
    {r : α → β → Prop} {as : List α}
    (h : ∀ a ∈ as, ∀ state, inv state →
      ∃ b state', (f a).run state = .ok (b, state') ∧ r a b ∧ inv state')
    {state : γ} (hstate : inv state) :
    ∃ bs state', (as.mapM f).run state = .ok (bs, state') ∧ List.Forall₂ r as bs ∧ inv state' := by
  induction as generalizing state with
  | nil => exact ⟨[], state, rfl, .nil, hstate⟩
  | cons a as ih =>
    obtain ⟨hhead, htail⟩ := List.forall_mem_cons.mp h
    obtain ⟨b, next, hb, hr, hnext⟩ := hhead state hstate
    obtain ⟨bs, last, hbs, hrs, hlast⟩ := ih htail hnext
    refine ⟨b :: bs, last, ?_, .cons hr hrs, hlast⟩
    rw [List.mapM_cons, StateT.run_bind, hb]
    show ((as.mapM f >>= fun bs => pure (b :: bs)).run next) = _
    rw [StateT.run_bind, hbs]
    rfl

theorem answered_run_mapM {f : α → StateT γ (Except RelationError) β} {as : List α}
    (h : ∀ a ∈ as, ∀ state, Answered ((f a).run state)) (state : γ) :
    Answered ((as.mapM f).run state) := by
  have hsteps : ∀ a ∈ as, ∀ state, True →
      ∃ b state', (f a).run state = .ok (b, state') ∧ True ∧ True := by
    intro a ha state _
    obtain ⟨⟨b, state'⟩, hrun⟩ := h a ha state
    exact ⟨b, state', hrun, trivial, trivial⟩
  obtain ⟨bs, state', hrun, -⟩ := exists_run_mapM hsteps trivial
  exact ⟨(bs, state'), hrun⟩

/-- A loop over a list has an end if every step has one from wherever it starts. -/
theorem answered_foldlM {f : β → α → Except RelationError β} {as : List α}
    (h : ∀ a ∈ as, ∀ b, Answered (f b a)) (b : β) : Answered (as.foldlM f b) := by
  induction as generalizing b with
  | nil => exact answered_ok b
  | cons a as ih =>
    obtain ⟨hhead, htail⟩ := List.forall_mem_cons.mp h
    rw [List.foldlM_cons]
    exact (hhead b).bind fun next _ => ih htail next

end Answered

namespace Store

variable {s : Store} {type : TypeId}

/-- The known types are those that have a descriptor. -/
theorem answered_descriptor (htype : type < s.size) : Answered (s.descriptor type) := by
  obtain ⟨d, hd⟩ := exists_get? htype
  exact ⟨d, descriptor_eq_ok.mpr hd⟩

/-! ## Depths of interfaces -/

/-- One interface on the walk: a depth that has been computed is taken over, and another one is
computed from those of the base interfaces and kept. -/
theorem run_interfaceDepthWithin_succ {d : Descriptor} (hd : s.get? type = some d) (levels : Nat)
    (depths : Std.TreeMap TypeId Nat) :
    (s.interfaceDepthWithin (levels + 1) type).run depths =
      match depths[type]? with
      | some depth => .ok (depth, depths)
      | none => ((d.interfaces.mapM (s.interfaceDepthWithin levels)).run depths).map fun found =>
          (found.1.foldl max 0 + 1, found.2.insert type (found.1.foldl max 0 + 1)) := by
  rw [interfaceDepthWithin, descriptor_eq_ok.mpr hd]
  show (match depths[type]? with
    | some depth => return depth
    | none => do
      let found ← d.interfaces.mapM (s.interfaceDepthWithin levels)
      let depth := found.foldl max 0 + 1
      modify (·.insert type depth)
      return depth : StateT _ (Except RelationError) Nat).run depths = _
  cases depths[type]? with
  | some depth => rfl
  | none =>
    dsimp only
    rw [StateT.run_bind]
    cases (d.interfaces.mapM (s.interfaceDepthWithin levels)).run depths <;> rfl

namespace WellFormed

theorem answered_interfaceDepthWithin (hs : s.WellFormed) (levels : Nat) :
    ∀ {type : TypeId}, type < s.size → ∀ depths : Std.TreeMap TypeId Nat,
      Answered ((s.interfaceDepthWithin levels type).run depths) := by
  induction levels with
  | zero => exact fun _ depths => answered_ok (_, depths)
  | succ levels ih =>
    intro type htype depths
    obtain ⟨d, hd⟩ := exists_get? htype
    rw [run_interfaceDepthWithin_succ hd]
    split
    · exact answered_ok _
    · refine Answered.map (answered_run_mapM ?_ depths) _
      exact fun base hbase => ih (lt_of_kind? ((hs.sound type d hd).interfaces base hbase))

theorem answered_interfaceDepth (hs : s.WellFormed) (htype : type < s.size) :
    Answered (s.interfaceDepth type) :=
  (hs.answered_interfaceDepthWithin maxDistance htype ∅).bind fun found _ => answered_ok found.1

/-! ## Base chains and ancestries -/

theorem answered_baseChainFrom (hs : s.WellFormed) (length : Nat) :
    ∀ {seen : List TypeId} {type : TypeId}, type < s.size →
      Answered (s.baseChainFrom length seen type) := by
  induction length with
  | zero => exact fun _ => answered_ok []
  | succ length ih =>
    intro seen type htype
    by_cases hseen : type ∈ seen
    · rw [baseChainFrom, if_pos hseen]
      exact answered_ok []
    obtain ⟨d, hd⟩ := exists_get? htype
    rw [baseChainFrom_succ hd hseen]
    cases hbase : d.base with
    | none => exact answered_ok [type]
    | some base => exact (ih ((DirectSupertype.of_base hd hbase).lt_size hs)).map (type :: ·)

theorem answered_baseChain (hs : s.WellFormed) (htype : type < s.size) :
    Answered (s.baseChain type) := hs.answered_baseChainFrom _ htype

theorem answered_lookAbove (htype : type < s.size) (distance : Nat)
    (found : List (TypeId × Nat)) : Answered (s.lookAbove distance found type) := by
  unfold lookAbove
  split
  · exact answered_ok found
  · exact (answered_descriptor htype).bind fun d _ => answered_ok _

theorem answered_walk (hs : s.WellFormed) (htype : type < s.size) (levels : Nat) :
    ∀ {distance : Nat} {found : List (TypeId × Nat)}, s.FoundAbove type distance found →
      Answered (s.walk levels distance found) := by
  induction levels with
  | zero => exact fun {_ found} _ => answered_ok found
  | succ levels ih =>
    intro distance found hfound
    rw [walk_succ]
    split
    · exact answered_ok found
    -- the types on a level are at the end of paths from a known type
    have hlevel : ∀ lower ∈ lastLevel distance found, ∀ found,
        Answered (s.lookAbove distance found lower) := fun lower hlower =>
      answered_lookAbove ((hfound.lastLevel lower hlower).lt_size hs htype) distance
    exact (answered_foldlM hlevel found).bind fun next hnext =>
      ih (foldlM_lookAbove_sound hfound.lastLevel (hfound.mono (Nat.le_succ _)) hnext)

theorem answered_ancestry (hs : s.WellFormed) (htype : type < s.size) :
    Answered (s.ancestry type) :=
  (hs.answered_baseChain htype).bind fun _ _ =>
    (hs.answered_walk htype maxDistance (s.foundAbove_self type)).bind fun _ _ => answered_ok _

/-- The members of an ancestry are known. -/
theorem ancestry_lt (hs : s.WellFormed) (htype : type < s.size) {a : Ancestry}
    (ha : s.ancestry type = .ok a) : ∀ entry ∈ a.members, entry.1 < s.size := fun entry hentry =>
  ((ancestry_sound ha).2 entry hentry).1.lt_size hs htype

theorem answered_nearestBuiltFrom (hs : s.WellFormed) (htype : type < s.size)
    (definition : TypeId) : Answered (s.nearestBuiltFrom type definition) := by
  refine (answered_descriptor htype).bind fun d _ => ?_
  split
  · exact answered_ok (some type)
  · exact (hs.answered_ancestry htype).bind fun a _ => answered_ok _

end WellFormed

end Store

end NominalTypes
