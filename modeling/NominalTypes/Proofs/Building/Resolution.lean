import NominalTypes.Proofs.Building.Instantiation
import NominalTypes.Store.Resolve

/-!
# Reading types keeps stores consistent

Reading a type expression adds instantiations and nothing else. It keeps what it has built even if
a later part of the expression fails.

- `Store.Advances`: growth by instantiations that leads to a consistent store.
- `Store.find_ends`: names denote known types.
- `Store.resolveIn_ends`, `Store.readTypeIn_ends`: expressions denote known types.
- `Store.freeParameter_ends`, `Store.readPattern_ends`: the same with free parameters, which are new
  types of another sort.
-/

namespace NominalTypes.Store

open Build (Ends ends_pure ends_throw ends_get ends_set ends_modify)

variable {pending : TypeId → Prop} {s t u : Store} {scope : Scope}

/-- The store has grown by instantiations and is consistent. -/
structure Advances (pending : TypeId → Prop) (s t : Store) : Prop where
  consistent : t.Consistent pending
  builds : s.Builds t

theorem Advances.trans (h : s.Advances pending t) (h' : t.Advances pending u) :
    s.Advances pending u := ⟨h'.consistent, h.builds.trans h'.builds⟩

theorem Consistent.advances_self (hs : s.Consistent pending) : s.Advances pending s :=
  ⟨hs, hs.wellFormed.closed.builds_refl⟩

theorem Consistent.advances_names (hs : s.Consistent pending) (h : s.UnchangedButNames t) :
    s.Advances pending t := ⟨hs.unchangedButNames h, h.builds hs.wellFormed.closed⟩

/-! ## Names -/

theorem lookup_lt (hs : s.Closed) {name : String} {arity : Nat} {type : TypeId}
    (h : s.lookup name arity = .ok type) : type < s.size := by
  unfold lookup at h
  split at h
  · next aliased halias =>
    cases h
    unfold aliased? at halias
    split at halias
    · exact hs.aliases name type halias
    · cases halias
  · next qualified hqualified =>
    cases h
    exact hs.qualifiedNames _ type hqualified
  · next types hsimple =>
    unfold unambiguous at h
    split at h
    · cases h
      exact (hs.simpleNames _ _ hsimple).2 type List.mem_cons_self
    · cases h
  · cases h

/-- What a name denotes is told by its entries in the tables. The stores may differ in the errors
only, which depend on labels. -/
theorem lookup_eq_ok_iff {name : String} {arity : Nat} {type : TypeId}
    (haliased : t.aliased? name arity = s.aliased? name arity)
    (hqualified : t.qualifiedNames[(name, arity)]? = s.qualifiedNames[(name, arity)]?)
    (hsimple : t.simpleNames[(name, arity)]? = s.simpleNames[(name, arity)]?) :
    t.lookup name arity = .ok type ↔ s.lookup name arity = .ok type := by
  unfold lookup
  rw [haliased, hqualified, hsimple]
  split
  · rfl
  · rfl
  · next types _ =>
    unfold unambiguous
    split
    · rfl
    · simp only [reduceCtorEq]
  · simp only [reduceCtorEq]

/-- A name denotes a known type, and finding it changes nothing. -/
theorem find_ends (hs : s.Closed) (name : String) (arity : Nat) :
    (find name arity).Ends s (fun type t => t = s ∧ type < s.size) fun t => t = s := by
  refine Ends.bind (ends_get ?_)
  split
  · next type htype => exact ends_pure ⟨rfl, lookup_lt hs htype⟩
  · exact ends_throw rfl

/-! ## Expressions -/

mutual

/-- An expression denotes a known type, if the names in scope do. -/
theorem resolveIn_ends :
    ∀ (expr : TypeExpr) {s : Store}, s.Consistent pending → (∀ entry ∈ scope, entry.2 < s.size) →
      (resolveIn scope expr).Ends s
        (fun type t => s.Advances pending t ∧ type < t.size) fun t => s.Advances pending t
  | .named name [], s, hs, hscope => by
    rw [resolveIn]
    split
    · next param hparam =>
      obtain ⟨l₁, l₂, heq, -⟩ := List.lookup_eq_some_iff.mp hparam
      refine ends_pure ⟨hs.advances_self, hscope (name, param) ?_⟩
      rw [heq]
      exact List.mem_append_right _ List.mem_cons_self
    · refine (find_ends hs.wellFormed.closed name 0).mono ?_ ?_
      · rintro type t ⟨rfl, htype⟩
        exact ⟨hs.advances_self, htype⟩
      · rintro t rfl
        exact hs.advances_self
  | .named name (arg :: rest), s, hs, hscope => by
    rw [resolveIn]
    refine Ends.bind ((find_ends hs.wellFormed.closed name (rest.length + 1)).mono ?_ ?_)
    swap
    · rintro t rfl
      exact hs.advances_self
    rintro definition t ⟨rfl, -⟩
    -- the first argument may build instantiations, so the names in scope are known all the more
    refine Ends.bind ((resolveIn_ends arg hs hscope).mono ?_ fun _ => id)
    rintro first u ⟨hu, -⟩
    have hscope' : ∀ entry ∈ scope, entry.2 < u.size := fun entry hentry =>
      Nat.lt_of_lt_of_le (hscope entry hentry) hu.builds.size_le
    refine Ends.bind ((resolveAllIn_ends rest hu.consistent hscope').mono ?_ ?_)
    swap
    · exact fun v hv => hu.trans hv
    rintro others v hv
    refine (instantiate_ends hv.consistent).mono ?_ ?_
    · exact fun result w hw => ⟨hu.trans (hv.trans ⟨hw.consistent, hw.builds⟩), hw.known⟩
    · exact fun w hw => hu.trans (hv.trans (hv.consistent.advances_names hw))
  | .blanks name arity, s, hs, hscope => by
    rw [resolveIn]
    refine Ends.bind ((find_ends hs.wellFormed.closed name arity).mono ?_ ?_)
    swap
    · rintro t rfl
      exact hs.advances_self
    rintro definition t ⟨rfl, hdefinition⟩
    refine Ends.bind (ends_descriptor (fun d _ => ?_) hs.advances_self)
    split
    · exact ends_pure ⟨hs.advances_self, hdefinition⟩
    · exact ends_throw hs.advances_self
  | .nullable inner, s, hs, hscope => by
    rw [resolveIn]
    refine Ends.bind ((resolveIn_ends inner hs hscope).mono ?_ fun _ => id)
    rintro type t ⟨ht, -⟩
    refine (nullableForm_ends ht.consistent).mono ?_ ?_
    · rintro result u ⟨nullable, -, hu⟩
      exact ⟨ht.trans ⟨hu.consistent, hu.builds⟩, hu.known⟩
    · exact fun u hu => ht.trans (ht.consistent.advances_names hu)

theorem resolveAllIn_ends :
    ∀ (exprs : List TypeExpr) {s : Store}, s.Consistent pending →
      (∀ entry ∈ scope, entry.2 < s.size) →
      (resolveAllIn scope exprs).Ends s (fun _ t => s.Advances pending t)
        fun t => s.Advances pending t
  | [], s, hs, _ => by
    rw [resolveAllIn]
    exact ends_pure hs.advances_self
  | arg :: rest, s, hs, hscope => by
    rw [resolveAllIn]
    refine Ends.bind ((resolveIn_ends arg hs hscope).mono ?_ fun _ => id)
    rintro first t ⟨ht, -⟩
    have hscope' : ∀ entry ∈ scope, entry.2 < t.size := fun entry hentry =>
      Nat.lt_of_lt_of_le (hscope entry hentry) ht.builds.size_le
    refine Ends.bind ((resolveAllIn_ends rest ht.consistent hscope').mono ?_ ?_)
    · exact fun others u hu => ends_pure (ht.trans hu)
    · exact fun u hu => ht.trans hu

end

theorem readExpr_ends {ok : TypeExpr → Store → Prop} {failed : Store → Prop} {text : String}
    (hok : ∀ expr, ok expr s) (hfailed : failed s) : (readExpr text).Ends s ok failed := by
  unfold readExpr
  split
  · exact ends_pure (hok _)
  · exact ends_throw hfailed

/-- A text denotes a known type, if the names in scope do. -/
theorem readTypeIn_ends (hs : s.Consistent pending) (hscope : ∀ entry ∈ scope, entry.2 < s.size)
    (text : String) :
    (readTypeIn scope text).Ends s (fun type t => s.Advances pending t ∧ type < t.size)
      fun t => s.Advances pending t :=
  Ends.bind (readExpr_ends (fun expr => resolveIn_ends expr hs hscope) hs.advances_self)

/-! ## Free parameters -/

theorem unchangedButNames_addAll (s : Store) (names : List String) :
    s.UnchangedButNames { s with names := s.names.addAll names } :=
  ⟨rfl, NamePool.growsTo_addAll names s.names⟩

theorem meet_ends (s : Store) (names : List String) {ok : Unit → Store → Prop}
    {failed : Store → Prop} (h : ∀ t, s.UnchangedButNames t → ok () t) :
    (Build.meet names).Ends s ok failed :=
  ends_modify (h _ (s.unchangedButNames_addAll names))

/-- The store with a new free parameter. -/
def addFree (s : Store) (name : String) : Store :=
  { s.push (.parameter name .methodParameter) with
    freeParameters := s.freeParameters.insert name s.size }

section AddFree

variable {name : String}

theorem get?_addFree (other : TypeId) :
    (s.addFree name).get? other =
      if other = s.size then some (.parameter name .methodParameter) else s.get? other :=
  s.get?_push _ other

@[simp] theorem size_addFree : (s.addFree name).size = s.size + 1 := s.size_push _

theorem freeParameters_addFree (other : String) :
    (s.addFree name).freeParameters[other]? =
      if other = name then some s.size else s.freeParameters[other]? := by
  show (s.freeParameters.insert name s.size)[other]? = _
  rw [Std.ExtTreeMap.getElem?_insert]
  refine if_congr ?_ rfl rfl
  rw [Std.LawfulEqCmp.compare_eq_iff_eq]
  exact eq_comm

theorem origin?_addFree : (s.addFree name).origin? s.size = some .methodParameter := by
  rw [origin?, get?_addFree, if_pos rfl]
  rfl

theorem Closed.grows_addFree (hs : s.Closed) (hnew : s.freeParameters[name]? = none) :
    s.Grows (s.addFree name) := by
  refine ⟨?_, .refl _⟩
  show (s.addFree name).rollback s.size = s
  have hsame : (s.addFree name).rollback s.size = s.rollback s.size := by
    simp only [rollback, addFree, push, mk.injEq, and_true, true_and]
    constructor
    · simp [size, Array.take_eq_extract]
    · refine filter_insert_of_not hnew ?_
      simp
  rw [hsame, hs.rollback_size]

theorem Closed.addFree (hs : s.Closed) : (s.addFree name).Closed := by
  have hlt : ∀ {other : TypeId}, other < s.size → other < (s.addFree name).size :=
    fun h => by rw [size_addFree]; exact Nat.lt_succ_of_lt h
  constructor
  · intro key types hkey
    obtain ⟨hne, htypes⟩ := hs.simpleNames key types hkey
    exact ⟨hne, fun other hother => hlt (htypes other hother)⟩
  · exact fun key other hkey => hlt (hs.qualifiedNames key other hkey)
  · exact fun key other hkey => hlt (hs.aliases key other hkey)
  · exact fun key other hkey => hlt (hs.keywords key other hkey)
  · intro key other hkey
    obtain ⟨hkey₁, hother, hkey₂⟩ := hs.instantiations key other hkey
    exact ⟨hlt hkey₁, hlt hother, fun arg harg => hlt (hkey₂ arg harg)⟩
  · intro key other hkey
    rw [freeParameters_addFree] at hkey
    split at hkey
    · cases hkey
      rw [size_addFree]
      exact Nat.lt_succ_self _
    · exact hlt (hs.freeParameters key other hkey)

theorem Consistent.addFree (hs : s.Consistent pending) (hnew : s.freeParameters[name]? = none) :
    (s.addFree name).Consistent pending := by
  have hgrows := hs.wellFormed.closed.grows_addFree hnew
  have hkeeps := hgrows.keepsOutlines
  have hlast : ∀ other, s.size ≤ other → other < (s.addFree name).size → other = s.size := by
    intro other hle hlt
    rw [size_addFree] at hlt
    exact Nat.eq_of_le_of_lt_succ hle hlt
  have hwf : (s.addFree name).WellFormed := by
    refine hs.wellFormed.extend (fun other h => hgrows.get?_eq h) hkeeps
      hs.wellFormed.closed.addFree ?_ (fun _ _ other h => .inl h) ?_ rfl
      (hs.wellFormed.names.later hkeeps rfl rfl rfl ?_)
    · intro other d hle hd
      obtain rfl := hlast other hle (lt_of_get? hd)
      rw [get?_addFree, if_pos rfl] at hd
      cases hd
      refine SoundOrigin.soundAt ⟨rfl, ?_⟩ rfl rfl
      exact (freeParameters_addFree name).trans (if_pos rfl)
    · intro key other hkey
      rw [freeParameters_addFree] at hkey
      split at hkey
      · cases hkey
        exact .inr origin?_addFree
      · exact .inl hkey
    · intro other o hle ho
      rw [hlast other hle (lt_of_origin? ho), origin?_addFree] at ho
      cases ho
      rfl
  refine hs.grow hgrows hwf (fun _ => id) ?_
  intro other hle hlt hnot d g generic args isOpen hd horigin
  obtain rfl := hlast other hle hlt
  rw [get?_addFree, if_pos rfl] at hd
  cases hd
  cases horigin

end AddFree

/-- A free parameter can always be had. -/
theorem freeParameter_ends (hs : s.Consistent pending) (name : String) :
    (freeParameter name).Ends s
      (fun type t => t.Consistent pending ∧ s.Grows t ∧ t.origin? type = some .methodParameter)
      fun _ => False := by
  refine Ends.bind (meet_ends s [name] ?_)
  intro t hst
  have ht := hs.unchangedButNames hst
  have hgrows := hst.grows hs.wellFormed.closed
  refine Ends.bind (ends_get ?_)
  split
  · next existing hexisting =>
    exact ends_pure ⟨ht, hgrows, ht.wellFormed.free name existing hexisting⟩
  · next hnew =>
    exact Ends.bind (ends_set (ends_pure ⟨ht.addFree hnew,
      hgrows.trans (ht.wellFormed.closed.grows_addFree hnew), origin?_addFree⟩))

/-- The variables of a pattern become free parameters, and the pattern itself a known type. -/
theorem readPattern_ends (hs : s.Consistent pending) (text : String) (vars : List String) :
    (readPattern text vars).Ends s (fun type t => t.Consistent pending ∧ s.Grows t ∧ type < t.size)
      fun t => t.Consistent pending ∧ s.Grows t := by
  have hrefl := hs.wellFormed.closed.grows_refl
  refine Ends.bind (readExpr_ends (fun expr => ?_) ⟨hs, hrefl⟩)
  have hparams : (vars.mapM freeParameter).Ends s
      (fun params t => t.Consistent pending ∧ s.Grows t ∧
        List.Forall₂ (fun _ param => t.origin? param = some .methodParameter) vars params)
      fun t => t.Consistent pending ∧ s.Grows t := by
    refine Build.ends_mapM Grows (fun t ht => ht.wellFormed.closed.grows_refl)
      (fun h h' => h.trans h') ?_ hs ?_
    · exact fun t u name param _ htu hparam => htu.keepsOutlines.origin?_some hparam
    · exact fun name _ t ht _ =>
        (freeParameter_ends ht name).mono (fun _ _ => id) fun _ => False.elim
  refine Ends.bind (hparams.mono ?_ fun _ => id)
  rintro params t ⟨ht, hst, hfree⟩
  have hscope : ∀ entry ∈ vars.zip params, entry.2 < t.size := fun entry hentry =>
    lt_of_origin? (List.forall₂_zip hfree hentry)
  refine (resolveIn_ends expr ht hscope).mono ?_ ?_
  · exact fun type u hu => ⟨hu.1.consistent, hst.trans hu.1.builds.grows, hu.2⟩
  · exact fun u hu => ⟨hu.consistent, hst.trans hu.builds.grows⟩

end NominalTypes.Store
