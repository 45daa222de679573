import NominalTypes.Proofs.Totality

/-!
# Growth does not change answers

Whatever is declared, built or read later on, the types of a store keep their descriptors, and every
question about them keeps its answer. A walk up from old types and down a pattern of old types meets
nothing but old types. Only a change of roles may change answers, as what is the universal root, and
what the nullable wrapper, depends on nothing else.

- `Store.SameAnswers`: the questions about the types of a store, and that they have the same answers
  in another store.
- `Store.KeepsTypes.matchInto_eq`, `Store.KeepsTypes.lowestCommonAncestor_eq`: the longest of them.
- `Store.Reachable.sameAnswers_afterAll`: the main result.
-/

namespace NominalTypes.Store

variable {s t : Store} {type candidate pattern : TypeId}

/-! ## Shapes and assignability -/

namespace KeepsTypes

theorem isParameter_eq (h : s.KeepsTypes t) (htype : type < s.size) :
    t.isParameter type = s.isParameter type := by
  rw [isParameter, isParameter, h.get?_eq htype]

theorem isInterface_eq (h : s.KeepsTypes t) (htype : type < s.size) :
    t.isInterface type = s.isInterface type := by
  rw [isInterface, isInterface, h.get?_eq htype]

theorem isRoot_eq (h : s.KeepsTypes t) (type : TypeId) : t.isRoot type = s.isRoot type := by
  rw [isRoot, isRoot, h.roles_eq]

theorem isStaticClass_eq (h : s.KeepsTypes t) (htype : type < s.size) :
    t.isStaticClass type = s.isStaticClass type := by
  rw [isStaticClass, isStaticClass, h.descriptor_eq htype]

theorem shape_eq (h : s.KeepsTypes t) (hs : s.WellFormed) (htype : type < s.size) :
    t.shape type = s.shape type := by
  obtain ⟨d, hd⟩ := exists_get? htype
  have hall : d.arguments.all t.isParameter = d.arguments.all s.isParameter := by
    rw [Bool.eq_iff_iff, List.all_eq_true, List.all_eq_true]
    refine forall₂_congr fun arg harg => ?_
    rw [h.isParameter_eq (hs.arguments_lt hd arg harg)]
  rw [shape, shape, h.descriptor_eq htype, h.definitionOf?_eq htype, h.roles_eq,
    descriptor_eq_ok.mpr hd]
  dsimp only [Bind.bind, Except.bind]
  rw [hall]

theorem acceptsGenerically_eq (h : s.KeepsTypes t) (hs : s.WellFormed) (hpattern : pattern < s.size)
    (hcandidate : candidate < s.size) :
    t.acceptsGenerically pattern candidate = s.acceptsGenerically pattern candidate := by
  have hnearest : t.nearestBuiltFrom candidate = s.nearestBuiltFrom candidate :=
    funext (h.nearestBuiltFrom_eq hs hcandidate)
  rw [acceptsGenerically, acceptsGenerically, h.descriptor_eq hcandidate, h.shape_eq hs hpattern,
    hnearest, h.definitionOf?_eq hcandidate]

end KeepsTypes

/-! ## Matching -/

namespace KeepsTypes

theorem matchParameter_eq (h : s.KeepsTypes t) (hs : s.WellFormed) (hcandidate : candidate < s.size)
    (hpattern : pattern < s.size) (b : Bindings String TypeId) :
    t.matchParameter candidate pattern b = s.matchParameter candidate pattern b := by
  rw [matchParameter, matchParameter, h.descriptor_eq hcandidate, h.shape_eq hs hpattern]

/-- Matching goes down the pattern, and compares its arguments with those of supertypes of old
types, all of which are old. -/
theorem matchInto_eq (h : s.KeepsTypes t) (hs : s.WellFormed) (hcandidate : candidate < s.size)
    (hpattern : pattern < s.size) (b : Bindings String TypeId) :
    t.matchInto candidate pattern b = s.matchInto candidate pattern b := by
  induction pattern using Nat.strongRecOn generalizing candidate b with
  | ind pattern ih =>
    obtain ⟨d, hd⟩ := exists_get? hcandidate
    obtain ⟨p, hp⟩ := exists_get? hpattern
    obtain ⟨shape, hshape⟩ := answered_shape hpattern
    have hargument : ∀ arg, arg < s.size → ∀ inner ∈ p.arguments, ∀ b,
        t.matchArgument pattern arg inner b = s.matchArgument pattern arg inner b := by
      intro arg harg inner hinner b
      have hknown := hs.arguments_lt hp inner hinner
      rw [matchArgument, matchArgument]
      split
      · next hlt => exact ih inner hlt harg hknown b
      · exact h.matchParameter_eq hs harg hknown b
    have hpairs : ∀ {found : TypeId} {f : Descriptor}, s.get? found = some f →
        matchPairs (t.matchArgument pattern) f.arguments p.arguments b =
          matchPairs (s.matchArgument pattern) f.arguments p.arguments b := fun hf =>
      matchPairs_congr fun arg harg => hargument arg (hs.arguments_lt hf arg harg)
    have hnearest : ∀ definition, t.matchNearest candidate pattern definition p b =
        s.matchNearest candidate pattern definition p b := by
      intro definition
      have hsame := h.nearestBuiltFrom_eq hs hcandidate definition
      obtain ⟨_ | found, hfound⟩ := hs.answered_nearestBuiltFrom hcandidate definition
      · rw [matchNearest_of_none hfound, matchNearest_of_none (hsame.trans hfound)]
      · obtain ⟨f, hf⟩ := exists_get?_of_nearestBuiltFrom hfound
        rw [matchNearest_of_found hfound hf, matchNearest_of_found (hsame.trans hfound)
          ((h.get?_eq (lt_of_get? hf)).trans hf), hpairs hf]
    rw [Store.matchInto_eq hd hp hshape, Store.matchInto_eq ((h.get?_eq hcandidate).trans hd)
      ((h.get?_eq hpattern).trans hp) ((h.shape_eq hs hpattern).trans hshape)]
    unfold matchShape
    split
    · rfl
    · rw [h.accepts_eq hs hpattern hcandidate]
    · rw [h.definitionOf?_eq hcandidate, hpairs hd]
      split
      · rfl
      split
      · split
        · next inner hinner =>
          exact hargument candidate hcandidate inner (hinner ▸ List.mem_singleton_self inner) b
        · rfl
      · rfl
    all_goals exact hnearest _

theorem matchBindings_eq (h : s.KeepsTypes t) (hs : s.WellFormed) (hcandidate : candidate < s.size)
    (hpattern : pattern < s.size) :
    t.matchBindings candidate pattern = s.matchBindings candidate pattern := by
  rw [matchBindings, matchBindings, h.matchInto_eq hs hcandidate hpattern]

end KeepsTypes

/-! ## Common ancestors -/

namespace KeepsTypes

theorem deepestInterface_eq (h : s.KeepsTypes t) (hs : s.WellFormed) (ancestries : List Ancestry)
    {common : List (TypeId × Nat)} (hcommon : ∀ entry ∈ common, entry.1 < s.size) :
    t.deepestInterface ancestries common = s.deepestInterface ancestries common := by
  have hinterfaces : common.filter (fun entry => t.isInterface entry.1) =
      common.filter fun entry => s.isInterface entry.1 :=
    List.filter_congr fun entry hentry => h.isInterface_eq (hcommon entry hentry)
  unfold deepestInterface
  rw [hinterfaces]
  refine congrArg (· >>= _) (mapM_congr fun ⟨type, distance⟩ hentry => ?_)
  have hdepth : t.interfaceDepth type = s.interfaceDepth type :=
    h.interfaceDepth_eq hs (hcommon _ (List.mem_of_mem_filter hentry))
  dsimp only
  rw [hdepth]

theorem lowestCommonOf_eq (h : s.KeepsTypes t) (hs : s.WellFormed) {inputs : List TypeId}
    (hinputs : ∀ type ∈ inputs, type < s.size) :
    t.lowestCommonOf inputs = s.lowestCommonOf inputs := by
  have hancestries : inputs.mapM t.ancestry = inputs.mapM s.ancestry :=
    mapM_congr fun type htype => h.ancestry_eq hs (hinputs type htype)
  unfold lowestCommonOf
  rw [hancestries]
  refine bind_congr_of_ok fun ancestries hall => ?_
  cases ancestries with
  | nil => rfl
  | cons first others =>
    have hcommon : t.commonMembers first others = s.commonMembers first others := by
      unfold commonMembers
      simp only [h.isRoot_eq]
    have hknown := hs.commonMembers_lt hinputs hall
    have hany : inputs.any (fun type => !t.isInterface type) =
        inputs.any fun type => !s.isInterface type := by
      rw [Bool.eq_iff_iff, List.any_eq_true, List.any_eq_true]
      refine exists_congr fun type => and_congr_right fun htype => ?_
      rw [h.isInterface_eq (hinputs type htype)]
    have hfind : first.chain.find? (fun type => ((s.commonMembers first others).lookup type).isSome
          && !t.isInterface type) =
        first.chain.find? fun type => ((s.commonMembers first others).lookup type).isSome
          && !s.isInterface type := by
      refine List.find?_congr fun type _ => ?_
      -- the lookup picks out types that are common, and these are old
      cases hlookup : (s.commonMembers first others).lookup type with
      | none => rfl
      | some distance =>
        obtain ⟨before, after, heq, -⟩ := List.lookup_eq_some_iff.mp hlookup
        have hmem : (type, distance) ∈ s.commonMembers first others := by
          rw [heq]
          exact List.mem_append_right _ List.mem_cons_self
        rw [h.isInterface_eq (hknown _ hmem)]
    dsimp only
    rw [hcommon, hany, hfind, h.deepestInterface_eq hs _ hknown]

theorem lowestCommonAncestor_eq (h : s.KeepsTypes t) (hs : s.WellFormed) {inputs : List TypeId}
    (hinputs : ∀ type ∈ inputs, type < s.size) :
    t.lowestCommonAncestor inputs = s.lowestCommonAncestor inputs := by
  cases inputs with
  | nil => rfl
  | cons first rest =>
    have hlater : ∀ type ∈ first :: rest, type < t.size := fun type htype =>
      Nat.lt_of_lt_of_le (hinputs type htype) h.size_le
    rw [Store.lowestCommonAncestor_eq hinputs, Store.lowestCommonAncestor_eq hlater,
      h.lowestCommonOf_eq hs hinputs]

end KeepsTypes

/-! ## Runs -/

/-- The types of one store have the same descriptors in another one, and all questions about them
have the same answers there. -/
structure SameAnswers (s t : Store) : Prop where
  get? : ∀ type, type < s.size → t.get? type = s.get? type
  shape : ∀ type, type < s.size → t.shape type = s.shape type
  isStaticClass : ∀ type, type < s.size → t.isStaticClass type = s.isStaticClass type
  /-- Members, order, distances and the base chain. -/
  ancestry : ∀ type, type < s.size → t.ancestry type = s.ancestry type
  interfaceDepth : ∀ type, type < s.size → t.interfaceDepth type = s.interfaceDepth type
  accepts : ∀ target candidate, target < s.size → candidate < s.size →
    t.accepts target candidate = s.accepts target candidate
  acceptsGenerically : ∀ pattern candidate, pattern < s.size → candidate < s.size →
    t.acceptsGenerically pattern candidate = s.acceptsGenerically pattern candidate
  matchInto : ∀ candidate pattern b, candidate < s.size → pattern < s.size →
    t.matchInto candidate pattern b = s.matchInto candidate pattern b
  /-- The result and all bindings. -/
  matchBindings : ∀ candidate pattern, candidate < s.size → pattern < s.size →
    t.matchBindings candidate pattern = s.matchBindings candidate pattern
  lowestCommonAncestor : ∀ inputs : List TypeId, (∀ type ∈ inputs, type < s.size) →
    t.lowestCommonAncestor inputs = s.lowestCommonAncestor inputs

theorem KeepsTypes.sameAnswers (h : s.KeepsTypes t) (hs : s.WellFormed) : s.SameAnswers t where
  get? _ := h.get?_eq
  shape _ := h.shape_eq hs
  isStaticClass _ := h.isStaticClass_eq
  ancestry _ := h.ancestry_eq hs
  interfaceDepth _ := h.interfaceDepth_eq hs
  accepts _ _ := h.accepts_eq hs
  acceptsGenerically _ _ := h.acceptsGenerically_eq hs
  matchInto _ _ b hcandidate hpattern := h.matchInto_eq hs hcandidate hpattern b
  matchBindings _ _ := h.matchBindings_eq hs
  lowestCommonAncestor _ := h.lowestCommonAncestor_eq hs

/-- Operations that change no roles, whether they succeed or fail, change nothing about the types
that were there before. -/
theorem Reachable.sameAnswers_afterAll (hs : s.Reachable) {operations : List Operation}
    (hroles : ∀ operation ∈ operations, operation.givesRole = false) :
    s.SameAnswers (s.afterAll operations) :=
  (hs.keepsTypes_afterAll hroles).sameAnswers hs.coherent.wellFormed

/-- A type is built, a declaration fails, and a class gets a keyword. -/
def someOperations : List Operation :=
  [.readType "Eq<Node<Eq<A>>>", .declare unfinished, .addAlias "a" 2]

/-- In the store that these operations lead to, `Node<A>` is still an `Eq<A>`, and `Eq<T>` still
matches it with `T` bound to `A`. -/
theorem sameAnswers_selfReferring :
    selfReferring.size < (selfReferring.afterAll someOperations).size ∧
      (selfReferring.afterAll someOperations).accepts 8 6 = .ok true ∧
      (selfReferring.afterAll someOperations).matchBindings 6 0 = .ok (some ⟨[("T", [2])]⟩) := by
  have hsame : selfReferring.SameAnswers (selfReferring.afterAll someOperations) :=
    reachable_selfReferring.sameAnswers_afterAll (by decide)
  refine ⟨by decide +kernel, ?_, ?_⟩
  · rw [hsame.accepts 8 6 (by decide +kernel) (by decide +kernel)]
    decide +kernel
  · rw [hsame.matchBindings 6 0 (by decide +kernel) (by decide +kernel)]
    decide +kernel

end NominalTypes.Store
