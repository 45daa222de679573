import NominalTypes.Proofs.Building.Growth

/-!
# Pools of names are bijections that grow

A pool keeps the relation between names and atoms twice, as an array and as a table. Whatever is
asked of a new pool, the two stay inverse to each other, so that atoms may be compared in the place
of names. Nothing is ever taken out of a pool, so an atom keeps its name.

- `NamePool.IsPaired`: the two halves of a pool are inverse to each other.
- `NamePool.Call`, `NamePool.afterAll`: what can be asked of a pool, and the pool after some calls.
- `NamePool.IsPaired.afterAll`: calls keep a pool paired.
- `NamePool.IsBijection`: what being paired comes to.
- `NamePool.isBijection_afterAll`: the main result.
-/

namespace NominalTypes.NamePool

variable {pool : NamePool} {name : String} {atom atom' : Atom}

/-! ## One pool -/

/-- A name is found under an atom exactly if the atom reads as the name. The first atom is that of
the empty name. -/
structure IsPaired (pool : NamePool) : Prop where
  find?_eq_some_iff : ∀ name atom, pool.find? name = some atom ↔ pool.text? atom = some name
  text?_zero : pool.text? 0 = some ""

/-- The atoms given out are those below the size. -/
theorem lt_size_iff : atom < pool.size ↔ ∃ name, pool.text? atom = some name := by
  rw [← Option.isSome_iff_exists]
  simp [text?, size]

theorem text_of_text? (h : pool.text? atom = some name) : pool.text atom = name := by
  rw [text, h]
  rfl

/-- Interning a name that the pool knows changes nothing. -/
theorem intern_of_find? (h : pool.find? name = some atom) : pool.intern name = (atom, pool) := by
  rw [intern, h]

/-- A new name gets the next atom. -/
theorem intern_of_new (h : pool.find? name = none) : pool.intern name =
    (pool.size, ⟨pool.texts.push name, pool.atoms.insert name pool.size⟩) := by
  rw [intern, h]

/-- Names are the same to a table exactly if they are equal. -/
theorem getElem?_insert (table : Std.TreeMap String Atom) (name : String) (atom : Atom)
    (other : String) :
    (table.insert name atom)[other]? = if other = name then some atom else table[other]? := by
  rw [Std.TreeMap.getElem?_insert]
  refine if_congr ?_ rfl rfl
  rw [Std.LawfulEqCmp.compare_eq_iff_eq]
  exact eq_comm

theorem find?_add_of_new (h : pool.find? name = none) (other : String) :
    (pool.add name).find? other = if other = name then some pool.size else pool.find? other := by
  rw [add, intern_of_new h]
  exact getElem?_insert pool.atoms name pool.size other

theorem text?_add_of_new (h : pool.find? name = none) (atom : Atom) :
    (pool.add name).text? atom = if atom = pool.size then some name else pool.text? atom := by
  rw [add, intern_of_new h]
  exact Array.getElem?_push

namespace IsPaired

/-- Two atoms do not read as the same name. -/
theorem text?_injective (h : pool.IsPaired) (ha : pool.text? atom = some name)
    (hb : pool.text? atom' = some name) : atom = atom' := by
  have hfound := (h.find?_eq_some_iff name atom).mpr ha
  rw [(h.find?_eq_some_iff name atom').mpr hb] at hfound
  exact (Option.some.inj hfound).symm

/-- The pool in which nothing but the empty name is known. -/
theorem empty : NamePool.empty.IsPaired := by
  refine ⟨fun name atom => ?_, rfl⟩
  have hfind : NamePool.empty.find? name = if name = "" then some 0 else none := by
    show ((∅ : Std.TreeMap String Atom).insert "" 0)[name]? = _
    rw [getElem?_insert, Std.TreeMap.getElem?_emptyc]
  have htext : NamePool.empty.text? atom = if atom = 0 then some "" else none := by
    cases atom with
    | zero => rfl
    | succ => rfl
  rw [hfind, htext]
  by_cases hname : name = "" <;> by_cases hatom : atom = 0 <;> simp [hname, hatom, eq_comm]

/-- A new name is entered in both halves under the next atom. -/
theorem add (h : pool.IsPaired) (name : String) : (pool.add name).IsPaired := by
  cases hknown : pool.find? name with
  | some atom =>
    rw [NamePool.add, intern_of_find? hknown]
    exact h
  | none =>
    constructor
    · intro other atom
      rw [find?_add_of_new hknown, text?_add_of_new hknown]
      split
      · next heq =>
        subst heq
        -- no atom reads as the name yet
        have hnot : pool.text? atom ≠ some other := fun htext => by
          rw [(h.find?_eq_some_iff other atom).mpr htext] at hknown
          cases hknown
        split
        · next heq => simp [heq]
        · next hne => exact iff_of_false (by simpa using Ne.symm hne) hnot
      · next hne =>
        split
        · next heq =>
          -- the next atom has not been given out
          have hnot : pool.find? other ≠ some pool.size := fun hfind => by
            have hlt := lt_size_iff.mpr ⟨other, (h.find?_eq_some_iff other _).mp hfind⟩
            exact Nat.lt_irrefl _ hlt
          rw [heq]
          exact iff_of_false hnot (by simpa using Ne.symm hne)
        · exact h.find?_eq_some_iff other atom
    · have hzero : 0 < pool.size := lt_size_iff.mpr ⟨"", h.text?_zero⟩
      rw [text?_add_of_new hknown, if_neg (Nat.ne_of_lt hzero), h.text?_zero]

theorem addAll (names : List String) : ∀ {pool : NamePool}, pool.IsPaired →
    (pool.addAll names).IsPaired := by
  induction names with
  | nil => exact id
  | cons name names ih => exact fun h => ih (h.add name)

end IsPaired

/-! ## Sequences of calls -/

/-- What can be asked of a pool. -/
inductive Call where
  | intern (name : String)
  | addCommon
  | find (name : String)
  deriving DecidableEq, Repr

namespace Call

/-- The name that a call asks about. -/
def name? : Call → Option String
  | .intern name | .find name => some name
  | .addCommon => none

/-- The atom that a call answers. -/
def answer (pool : NamePool) : Call → Option Atom
  | .intern name => (pool.intern name).1
  | .addCommon => none
  | .find name => pool.find? name

/-- The pool that a call leaves. -/
def after (pool : NamePool) : Call → NamePool
  | .intern name => pool.add name
  | .addCommon => pool.addCommon
  | .find _ => pool

end Call

/-- The pool after some calls, one after the other. -/
def afterAll (pool : NamePool) (calls : List Call) : NamePool := calls.foldl Call.after pool

theorem growsTo_after (pool : NamePool) (call : Call) : pool.GrowsTo (call.after pool) := by
  unfold Call.after
  split
  · exact growsTo_add pool _
  · exact growsTo_addAll _ pool
  · exact .refl pool

theorem growsTo_afterAll (calls : List Call) :
    ∀ pool : NamePool, pool.GrowsTo (pool.afterAll calls) := by
  induction calls with
  | nil => exact GrowsTo.refl
  | cons call calls ih => exact fun pool => (growsTo_after pool call).trans (ih (call.after pool))

theorem IsPaired.after (h : pool.IsPaired) (call : Call) : (call.after pool).IsPaired := by
  unfold Call.after
  split
  · exact h.add _
  · exact h.addAll _
  · exact h

theorem IsPaired.afterAll (calls : List Call) :
    ∀ {pool : NamePool}, pool.IsPaired → (pool.afterAll calls).IsPaired := by
  induction calls with
  | nil => exact id
  | cons call calls ih => exact fun h => ih (h.after call)

/-- The atom that a call answers reads as the name asked about, in the pool that the call leaves. -/
theorem IsPaired.text?_answer (h : pool.IsPaired) {call : Call} (hname : call.name? = some name)
    (hatom : call.answer pool = some atom) : (call.after pool).text? atom = some name := by
  cases call with
  | addCommon => cases hname
  | find asked =>
    cases hname
    exact (h.find?_eq_some_iff name atom).mp hatom
  | intern asked =>
    cases hname
    rw [Call.answer, Option.some.injEq] at hatom
    rw [Call.after, NamePool.add]
    cases hknown : pool.find? name with
    | some known =>
      rw [intern_of_find? hknown] at hatom ⊢
      exact (h.find?_eq_some_iff name atom).mp (hatom ▸ hknown)
    | none =>
      rw [intern_of_new hknown] at hatom ⊢
      rw [← hatom]
      exact Array.getElem?_push_size

/-! ## The bijection -/

/-- Names and atoms correspond to each other one by one: the atoms are counted off from that of the
empty name, and interning a name again gives the same atom. -/
structure IsBijection (pool : NamePool) : Prop where
  find?_eq_some_iff : ∀ name atom, pool.find? name = some atom ↔ pool.text? atom = some name
  text_ne : ∀ atom atom', atom < pool.size → atom' < pool.size → atom ≠ atom' →
    pool.text atom ≠ pool.text atom'
  text?_eq_empty_iff : ∀ atom, pool.text? atom = some "" ↔ atom = 0
  lt_size : ∀ name atom, pool.find? name = some atom → atom < pool.size
  intern_eq : ∀ name atom, pool.find? name = some atom → pool.intern name = (atom, pool)

theorem IsPaired.isBijection (h : pool.IsPaired) : pool.IsBijection where
  find?_eq_some_iff := h.find?_eq_some_iff
  text_ne atom atom' hatom hatom' hne heq := by
    obtain ⟨name, hname⟩ := lt_size_iff.mp hatom
    obtain ⟨name', hname'⟩ := lt_size_iff.mp hatom'
    rw [text_of_text? hname, text_of_text? hname'] at heq
    exact hne (h.text?_injective hname (heq ▸ hname'))
  text?_eq_empty_iff atom :=
    ⟨fun hatom => h.text?_injective hatom h.text?_zero, fun hatom => hatom ▸ h.text?_zero⟩
  lt_size name atom hfind := lt_size_iff.mpr ⟨name, (h.find?_eq_some_iff name atom).mp hfind⟩
  intern_eq _ _ := intern_of_find?

/-- Whatever is asked of a new pool, it is a bijection between names and atoms. An atom that it
answers reads as the name asked about, and does so after all further calls. -/
theorem isBijection_afterAll (calls : List Call) :
    (empty.afterAll calls).IsBijection ∧
      ∀ (call : Call) (name : String) (atom : Atom), call.name? = some name →
        call.answer (empty.afterAll calls) = some atom →
        ∀ later, ((call.after (empty.afterAll calls)).afterAll later).text? atom = some name := by
  have hpaired := IsPaired.empty.afterAll calls
  refine ⟨hpaired.isBijection, fun call name atom hname hatom later => ?_⟩
  exact growsTo_afterAll later _ atom name (hpaired.text?_answer hname hatom)

/-- A pool that has met a common name before it met the common names. -/
def withSystem : NamePool := empty.afterAll [.intern "Row", .intern "System", .addCommon]

/-- The name has kept the atom that it got first, and will keep it. -/
theorem isBijection_withSystem : withSystem.IsBijection ∧
    Call.answer withSystem (.intern "System") = some 2 ∧
    ∀ later,
      ((Call.after withSystem (.intern "System")).afterAll later).text? 2 = some "System" := by
  have hanswer : Call.answer withSystem (.intern "System") = some 2 := by decide +kernel
  obtain ⟨hbijection, hstays⟩ := isBijection_afterAll [.intern "Row", .intern "System", .addCommon]
  exact ⟨hbijection, hanswer, hstays (.intern "System") "System" 2 rfl hanswer⟩

end NominalTypes.NamePool
