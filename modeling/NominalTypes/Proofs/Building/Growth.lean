import NominalTypes.Proofs.Building.Outcome

/-!
# Growth of stores, and how rollback undoes it

A building operation gives new types the handles from the size of the store on, and everything that
it enters into a table mentions one of them. So whatever it has done is undone by forgetting these
handles, and `Store.Grows` says just that: rolling the later store back to the size of the earlier
one gives the earlier one again, but for the names met meanwhile.

- `Store.Closed`: the tables mention types of the store only.
- `Store.Grows`: the relation between the stores before and after; a preorder on closed stores
  (`Store.Closed.grows_refl`, `Store.Grows.trans`).
- `Store.UnchangedButNames`: equality but for the names that have been met.
- `Build.ends_atomic`: where an operation lets the store grow even if it fails, doing it atomically
  leaves the store unchanged if it fails.
-/

namespace NominalTypes

/-! ## Names -/

/-- Every atom of the first pool stands for the same name in the second one. -/
def NamePool.GrowsTo (p q : NamePool) : Prop :=
  ∀ atom text, p.text? atom = some text → q.text? atom = some text

namespace NamePool

theorem GrowsTo.refl (p : NamePool) : p.GrowsTo p := fun _ _ => id

theorem GrowsTo.trans {p q r : NamePool} (h : p.GrowsTo q) (h' : q.GrowsTo r) : p.GrowsTo r :=
  fun atom text hp => h' atom text (h atom text hp)

theorem growsTo_add (p : NamePool) (name : String) : p.GrowsTo (p.add name) := by
  intro atom text h
  unfold add intern
  split
  · exact h
  · obtain ⟨hlt, -⟩ := Array.getElem?_eq_some_iff.mp h
    show (p.texts.push name)[atom]? = some text
    rw [Array.getElem?_push_lt hlt]
    exact (Array.getElem?_eq_getElem hlt).symm.trans h

theorem growsTo_addAll (names : List String) : ∀ p : NamePool, p.GrowsTo (p.addAll names) := by
  induction names with
  | nil => exact GrowsTo.refl
  | cons name names ih => exact fun p => (growsTo_add p name).trans (ih (p.add name))

end NamePool

/-! ## Tables -/

section Tables

variable {α β : Type} {cmp : α → α → Ordering} [Std.TransCmp cmp] [Std.LawfulEqCmp cmp]

/-- Of two filters the one that lets less through decides. -/
theorem filter_filter_of_imp {p q : α → β → Bool} (h : ∀ a b, p a b → q a b)
    (table : Std.ExtTreeMap α β cmp) : (table.filter q).filter p = table.filter p := by
  refine Std.ExtTreeMap.ext_getElem? fun a => ?_
  rw [Std.ExtTreeMap.getElem?_filter', Std.ExtTreeMap.getElem?_filter',
    Std.ExtTreeMap.getElem?_filter', Option.filter_filter]
  congr 1
  funext b
  have := h a b
  cases hp : p a b <;> simp_all

/-- A filter that lets every entry through changes nothing. -/
theorem filter_eq_self_of_forall {p : α → β → Bool} {table : Std.ExtTreeMap α β cmp}
    (h : ∀ a b, table[a]? = some b → p a b) : table.filter p = table := by
  refine Std.ExtTreeMap.ext_getElem? fun a => ?_
  rw [Std.ExtTreeMap.getElem?_filter']
  cases hb : table[a]? with
  | none => rfl
  | some b => simp [h a b hb]

/-- A filter that refuses a new entry gives what it gives without the entry. -/
theorem filter_insert_of_not {p : α → β → Bool} {table : Std.ExtTreeMap α β cmp} {a : α} {b : β}
    (hnew : table[a]? = none) (hp : p a b = false) :
    (table.insert a b).filter p = table.filter p := by
  refine Std.ExtTreeMap.ext_getElem? fun a' => ?_
  rw [Std.ExtTreeMap.getElem?_filter', Std.ExtTreeMap.getElem?_filter',
    Std.ExtTreeMap.getElem?_insert]
  split
  · next heq =>
    obtain rfl := Std.LawfulEqCmp.eq_of_compare heq
    simp [hnew, hp]
  · rfl

end Tables

namespace Store

/-! ## Rollback -/

theorem get?_rollback (s : Store) (mark : Nat) (type : TypeId) :
    (s.rollback mark).get? type = if type < mark then s.get? type else none := by
  show (s.types.take mark)[type]? = if type < mark then s.types[type]? else none
  rw [← Array.getElem?_toList, Array.take_eq_extract, Array.toList_extract]
  simp [List.getElem?_take]

theorem olderThan_olderThan {m n : Nat} (h : m ≤ n) (types : List TypeId) :
    (olderThan n types).bind (olderThan m) = olderThan m types := by
  have hfilter : (types.filter (· < n)).filter (· < m) = types.filter (· < m) := by
    rw [List.filter_filter]
    refine List.filter_congr fun type _ => ?_
    rw [Bool.eq_iff_iff]
    simp only [Bool.and_eq_true, decide_eq_true_eq]
    omega
  unfold olderThan
  cases hn : types.filter (· < n) with
  | nil =>
    rw [hn, List.filter_nil] at hfilter
    rw [← hfilter]
    rfl
  | cons type rest =>
    rw [hn] at hfilter
    rw [← hfilter]
    rfl

/-- Of two rollbacks the one that goes further back decides. -/
theorem rollback_rollback {m n : Nat} (h : m ≤ n) (s : Store) :
    (s.rollback n).rollback m = s.rollback m := by
  have hlt : ∀ type : TypeId, decide (type < m) = true → decide (type < n) = true := by
    intro type
    simp only [decide_eq_true_eq]
    exact fun hm => Nat.lt_of_lt_of_le hm h
  simp only [rollback, mk.injEq]
  -- what is older than the earlier mark is older than the later one, in every table
  refine ⟨trivial, ?_, ?_, ?_, ?_, ?_, ?_, ?_, trivial⟩
  · simp only [Array.take_eq_extract, Array.extract_extract, Nat.zero_add, Nat.min_eq_left h]
  · refine Std.ExtTreeMap.ext_getElem? fun key => ?_
    simp only [Std.ExtTreeMap.getElem?_filterMap', Option.bind_assoc, olderThan_olderThan h]
  · exact filter_filter_of_imp (fun _ type => hlt type) _
  · exact filter_filter_of_imp (fun _ type => hlt type) _
  · exact filter_filter_of_imp (fun type _ => hlt type) _
  · refine filter_filter_of_imp (fun key type hkey => ?_) _
    simp only [Bool.and_eq_true, List.all_eq_true] at hkey ⊢
    exact ⟨⟨hlt _ hkey.1.1, hlt _ hkey.1.2⟩, fun arg harg => hlt _ (hkey.2 arg harg)⟩
  · exact filter_filter_of_imp (fun _ type => hlt type) _

/-! ## Closed stores -/

/-- Every table mentions types of the store only, and every simple name that has been entered
belongs to some type. -/
structure Closed (s : Store) : Prop where
  simpleNames : ∀ (key : String × Nat) (types : List TypeId), s.simpleNames[key]? = some types →
    types ≠ [] ∧ ∀ type ∈ types, type < s.size
  qualifiedNames : ∀ (key : String × Nat) (type : TypeId),
    s.qualifiedNames[key]? = some type → type < s.size
  aliases : ∀ (keyword : String) (type : TypeId), s.aliases[keyword]? = some type → type < s.size
  keywords : ∀ (type : TypeId) (keyword : String),
    s.keywords[type]? = some keyword → type < s.size
  instantiations : ∀ (key : TypeId × List TypeId) (type : TypeId),
    s.instantiations[key]? = some type →
      key.1 < s.size ∧ type < s.size ∧ ∀ arg ∈ key.2, arg < s.size
  freeParameters : ∀ (name : String) (type : TypeId),
    s.freeParameters[name]? = some type → type < s.size

theorem olderThan_eq_some {mark : Nat} {types : List TypeId} (hne : types ≠ [])
    (h : ∀ type ∈ types, type < mark) : olderThan mark types = some types := by
  have hfilter : types.filter (· < mark) = types :=
    List.filter_eq_self.mpr fun type htype => decide_eq_true (h type htype)
  unfold olderThan
  rw [hfilter]
  cases types with
  | nil => exact absurd rfl hne
  | cons => rfl

/-- A closed store has nothing to forget from its size on. -/
theorem Closed.rollback_size {s : Store} (h : s.Closed) : s.rollback s.size = s := by
  obtain ⟨names, types, simple, qualified, aliases, keywords, insts, free, roles⟩ := s
  -- table by table, what is kept is everything
  simp only [rollback, mk.injEq]
  refine ⟨trivial, ?_, ?_, ?_, ?_, ?_, ?_, ?_, trivial⟩
  · simp [size]
  · refine Std.ExtTreeMap.ext_getElem? fun key => ?_
    rw [Std.ExtTreeMap.getElem?_filterMap']
    cases hkey : simple[key]? with
    | none => rfl
    | some types =>
      obtain ⟨hne, hlt⟩ := h.simpleNames key types hkey
      exact olderThan_eq_some hne hlt
  · exact filter_eq_self_of_forall fun key type hkey =>
      decide_eq_true (h.qualifiedNames key type hkey)
  · exact filter_eq_self_of_forall fun key type hkey =>
      decide_eq_true (h.aliases key type hkey)
  · exact filter_eq_self_of_forall fun key type hkey =>
      decide_eq_true (h.keywords key type hkey)
  · refine filter_eq_self_of_forall fun key type hkey => ?_
    obtain ⟨hdef, htype, hargs⟩ := h.instantiations key type hkey
    simp only [Bool.and_eq_true, decide_eq_true_eq, List.all_eq_true]
    exact ⟨⟨hdef, htype⟩, hargs⟩
  · exact filter_eq_self_of_forall fun key type hkey =>
      decide_eq_true (h.freeParameters key type hkey)

/-! ## Growth -/

/-- The store has grown: without the types that are new, and without all that mentions them, the
later store is the earlier one, but for the names met meanwhile. -/
structure Grows (s t : Store) : Prop where
  rollback : t.rollback s.size = { s with names := t.names }
  names : s.names.GrowsTo t.names

/-- The two stores differ at most in the names that they have met, and no name got lost. -/
structure UnchangedButNames (s t : Store) : Prop where
  eq : t = { s with names := t.names }
  names : s.names.GrowsTo t.names

theorem UnchangedButNames.refl (s : Store) : s.UnchangedButNames s := ⟨rfl, .refl _⟩

theorem UnchangedButNames.trans {s t u : Store} (h : s.UnchangedButNames t)
    (h' : t.UnchangedButNames u) : s.UnchangedButNames u := by
  refine ⟨?_, h.names.trans h'.names⟩
  have heq := h'.eq
  rw [h.eq] at heq
  exact heq

namespace Grows

variable {s t u : Store}

theorem get?_eq (h : s.Grows t) {type : TypeId} (htype : type < s.size) :
    t.get? type = s.get? type := by
  have hget := t.get?_rollback s.size type
  rw [h.rollback, if_pos htype] at hget
  exact hget.symm

theorem roles_eq (h : s.Grows t) : t.roles = s.roles := by
  have hroles : (t.rollback s.size).roles = s.roles := by rw [h.rollback]
  exact hroles

theorem size_le (h : s.Grows t) : s.size ≤ t.size := by
  have hsize : (t.rollback s.size).size = s.size := by rw [h.rollback]; rfl
  have hmin : (t.rollback s.size).size = min s.size t.size := by
    simp [Store.rollback, size]
  omega

/-- What has grown and grown again has grown. -/
theorem trans (h : s.Grows t) (h' : t.Grows u) : s.Grows u := by
  refine ⟨?_, h.names.trans h'.names⟩
  rw [← rollback_rollback h.size_le u, h'.rollback]
  show { t.rollback s.size with names := u.names } = _
  rw [h.rollback]

end Grows

theorem Closed.grows_refl {s : Store} (h : s.Closed) : s.Grows s := ⟨h.rollback_size, .refl _⟩

theorem UnchangedButNames.grows {s t : Store} (h : s.UnchangedButNames t) (hs : s.Closed) :
    s.Grows t := by
  refine ⟨?_, h.names⟩
  rw [h.eq]
  show { s.rollback s.size with names := t.names } = _
  rw [hs.rollback_size]

end Store

/-- An operation that lets the store grow even if it fails leaves the store unchanged if it fails
while it is done atomically. -/
theorem Build.ends_atomic {α : Type} {operation : Build α} {s : Store}
    {ok : α → Store → Prop} (h : operation.Ends s ok fun t => s.Grows t) :
    (atomic operation).Ends s ok fun t => s.UnchangedButNames t := by
  unfold Ends at h
  split at h
  · next a t hrun =>
    have hatomic : atomic operation s = (.ok a, t) := by
      simp only [atomic, ExceptT.run, hrun]
    unfold Ends
    rw [hatomic]
    exact h
  · next error t hrun =>
    have hatomic : atomic operation s = (.error error, t.rollback s.size) := by
      simp only [atomic, ExceptT.run, hrun]
    unfold Ends
    rw [hatomic]
    exact ⟨h.rollback, h.names⟩

/-- Doing an operation atomically changes neither its answers nor what it leaves with them. -/
theorem Build.atomic_eq_ok {α : Type} {operation : Build α} {s t : Store} {a : α} :
    atomic operation s = (.ok a, t) ↔ operation s = (.ok a, t) := by
  unfold atomic ExceptT.run
  split
  · next b u hrun => rw [hrun]
  · next error u hrun =>
    rw [hrun]
    constructor <;> intro h <;> cases h

/-- Neither does it change the error of a failure. -/
theorem Build.fst_atomic {α : Type} (operation : Build α) (s : Store) :
    (atomic operation s).1 = (operation s).1 := by
  unfold atomic ExceptT.run
  split
  · next hrun => rw [hrun]
  · next hrun => rw [hrun]

/-- An operation that gives an answer ends the same way if it is done atomically. -/
theorem Build.ends_atomic_of_ok {α : Type} {operation : Build α} {s : Store}
    {ok : α → Store → Prop} {failed : Store → Prop} (h : operation.Ends s ok failed) :
    (atomic operation).Ends s ok fun _ => True := by
  unfold Ends
  split
  · next a t hrun => exact h.of_ok (atomic_eq_ok.mp hrun)
  · trivial

end NominalTypes
