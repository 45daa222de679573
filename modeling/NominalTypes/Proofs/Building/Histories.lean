import Mathlib.Data.List.Induction
import NominalTypes.Proofs.Building.Introduced

/-!
# Where declared types come from

Descriptors are not changed once the operation is over that has created them, not even by a change
of roles, so what a declaration has left of its type can be read off any later store. And each
declared type of a reachable store has been declared by one of the operations that lead to the
store.

- `Store.Reachable.get?_afterAll`: descriptors stay.
- `Store.HasDeclared`: a declaration on the way to a store.
- `Store.Reachable.exists_hasDeclared`: every declared type comes from one.
- `Store.WellFormed.isDeclared_head`: so does every other type but the parameters, in the end.
-/

namespace NominalTypes.Store

open Build (Ends ends_modify)

variable {s t u : Store} {type : TypeId}

/-! ## Descriptors in later stores -/

/-- Later operations leave the descriptors of known types as they are, also if they change roles. -/
theorem get?_after (hs : s.Coherent) (operation : Operation) (htype : type < s.size) :
    (operation.perform.after s).get? type = s.get? type := by
  cases hrole : operation.givesRole with
  | false => exact ((operation.leaves_after hs).keepsTypes hrole).get?_eq htype
  | true =>
    cases operation with
    | giveRole role other =>
      have hsame : (giveRole role other).Ends s (fun _ t => t.get? type = s.get? type)
          fun t => t.get? type = s.get? type := by
        refine Ends.bind (ends_descriptor (fun e _ => ?_) rfl)
        split
        · exact ends_modify rfl
        · exact refuse_ends rfl
      exact hsame.store (fun _ _ => id) fun _ => id
    | _ => cases hrole

theorem Reachable.get?_afterAll (hs : s.Reachable) (operations : List Operation)
    (htype : type < s.size) : (s.afterAll operations).get? type = s.get? type := by
  induction operations generalizing s with
  | nil => rfl
  | cons operation operations ih =>
    have hkeeps := (operation.leaves_after hs.coherent).keepsOutlines
    exact (ih (.step operation hs) (Nat.lt_of_lt_of_le htype hkeeps.size_le)).trans
      (get?_after hs.coherent operation htype)

/-! ## Declarations on the way -/

/-- A declared type that is new after an operation has been declared by it. -/
theorem Reachable.declare_of_new (hs : s.Reachable) (operation : Operation) {e : Descriptor}
    (he : (operation.perform.after s).get? type = some e) (hdeclared : e.origin.isDeclared = true)
    (hnew : s.size ≤ type) : ∃ d order, operation = .declare d order ∧
      declare d order s = (.ok type, operation.perform.after s) := by
  have ht := (operation.leaves_after hs.coherent).coherent.wellFormed.names
  have hcases : s.SameTables (operation.perform.after s) ∨
      ∃ d order met, operation = .declare d order ∧
        s.Declares d met (operation.perform.after s) :=
    (operation.perform_registers hs.coherent).store
      (p := fun t => s.SameTables t ∨
        ∃ d order met, operation = .declare d order ∧ s.Declares d met t)
      (fun _ t hregisters => by
        cases hregisters with
        | none _ tables => exact .inl tables
        | declaration declares => exact .inr ⟨_, _, _, rfl, declares⟩
        | keyword tables => exact .inl tables)
      fun _ hfailed => .inl hfailed.1
  rcases hcases with htables | ⟨d, order, met, rfl, hdeclares⟩
  · have hold := htables.lt_of_isDeclared hs.coherent.wellFormed.closed ht he hdeclared
    exact absurd hold (Nat.not_lt.mpr hnew)
  · obtain rfl := hdeclares.eq_size_of_isDeclared hs.coherent ht he hdeclared hnew
    have hafter : (Operation.declare d order).perform.after s = (declare d order s).2 :=
      Build.after_dropped _ _
    rw [hafter] at he ⊢
    refine ⟨d, order, rfl, ?_⟩
    rcases hrun : declare d order s with ⟨error | found, t⟩
    · -- a failed declaration leaves no new type
      have hsame := (declare_declares hs.coherent d).of_error hrun
      rw [hrun] at he
      exact absurd (hsame.size_eq ▸ lt_of_get? he) (Nat.lt_irrefl _)
    · rw [(declare_introduces hs.coherent hrun).1]

theorem afterAll_nil (s : Store) : s.afterAll [] = s := rfl

/-- The type has been declared on the way to the store, and the declaration left the other store
behind it. -/
def HasDeclared (u : Store) (declared : TypeId) (d : Declaration) (t : Store) : Prop :=
  ∃ (s : Store) (order : ScanOrder) (operations : List Operation), s.Reachable ∧
    declare d order s = (.ok declared, t) ∧ u = t.afterAll operations

/-- Every declared type has been declared at some time. -/
theorem Reachable.exists_hasDeclared (hu : u.Reachable) {e : Descriptor} (he : u.get? type = some e)
    (hdeclared : e.origin.isDeclared = true) : ∃ d t, u.HasDeclared type d t := by
  obtain ⟨operations, rfl⟩ := hu.exists_run
  induction operations using List.reverseRecOn with
  | nil => cases he
  | append_singleton operations operation ih =>
    have hs : (Store.empty.afterAll operations).Reachable := Reachable.empty.afterAll operations
    rw [afterAll_append] at he ⊢
    by_cases hold : type < (Store.empty.afterAll operations).size
    · obtain ⟨d, t, s, order, later, hs', hrun, heq⟩ := ih hs
        ((get?_after hs.coherent operation hold).symm.trans he)
      exact ⟨d, t, s, order, later ++ [operation], hs', hrun, by rw [heq, afterAll_append]⟩
    · obtain ⟨d, order, rfl, hrun⟩ := hs.declare_of_new operation he hdeclared
        (Nat.le_of_not_lt hold)
      exact ⟨d, _, _, order, [], hs, hrun, rfl⟩

/-! ## Declared types behind others -/

/-- The declared type behind a type has been declared, unless it is a parameter. -/
theorem WellFormed.isDeclared_head (hs : s.WellFormed) (htype : type < s.size)
    (hnot : s.isParameter type = false) :
    ∃ e, s.get? (s.head type) = some e ∧ e.origin.isDeclared = true := by
  obtain ⟨o, ho, hnew⟩ := hs.origin?_head htype
  obtain ⟨e, he, rfl, -⟩ := hs.sound_of_origin? ho
  refine ⟨e, he, ?_⟩
  have hkind : e.kind ≠ .parameter := fun hkind => by
    rw [Bool.eq_false_iff, ne_eq, isParameter_iff, ← hs.kind?_head htype, kind?_of_get? he,
      hkind] at hnot
    exact hnot rfl
  rw [ne_eq, hs.kind_parameter_iff he] at hkind
  cases horigin : e.origin with
  | declared | definition => rfl
  | instantiation =>
    rw [horigin] at hnew
    cases hnew
  | typeParameter | methodParameter => simp [horigin] at hkind

/-- A type is the declared type behind itself, or one of its instantiations. -/
theorem head_eq_or_instantiation (s : Store) (type : TypeId) : s.head type = type ∨
    ∃ args isOpen, s.origin? type = some (.instantiation (s.head type) args isOpen) := by
  unfold head
  rw [definitionOf?_eq_origin?]
  cases ho : s.origin? type with
  | none => exact .inl rfl
  | some origin =>
    cases origin with
    | instantiation definition args isOpen => exact .inr ⟨args, isOpen, rfl⟩
    | _ => exact .inl rfl

end NominalTypes.Store
