import NominalTypes.Proofs.Building.Naming
import NominalTypes.Proofs.Building.Reachable
import NominalTypes.Proofs.Pattern.Captures
import NominalTypes.Proofs.Termination.Declaration

/-!
# Every recursion over arguments ends

No type is reached from itself by following arguments, neither in a reachable store nor in the
middle of an operation that adds types. So whatever follows arguments ends: the replacement of
parameters, which runs together with instantiating and filling in supertypes; the writing of labels;
and matching, which goes down the pattern.

- `Store.labelWithin`, `Store.labelWithin_eq`: labels, and how deep the writing goes.
- `Store.matchWithin`, `Store.matchWithin_eq`: matching, and how deep it goes.
- `Store.Terminates`, `Store.Reachable.terminates`: the main result.
-/

namespace NominalTypes.Store

open Traced (Follows)

variable {s : Store} {type candidate pattern : TypeId} {style : LabelStyle}

/-! ## Labels -/

/-- The label of a type, unless the writing goes down more than `depth` levels, the type itself
counted. -/
def labelWithin (s : Store) (style : LabelStyle) : Nat → TypeId → Option String
  | 0, _ => none
  | depth + 1, type =>
    match s.get? type, s.shownKeyword? style type with
    | none, _ => some (unknownLabel type)
    | some _, some keyword => some keyword
    | some d, none => do
      let shown ← d.arguments.mapM (labelWithin s style depth)
      match d.origin with
      | .instantiation definition _ _ => some (s.appliedLabel style definition d shown)
      | _ => some (headName style d ++ bracketed shown)

/-- The label of a parameter has no arguments. -/
theorem WellFormed.label_parameter (hs : s.WellFormed) (h : s.isParameter type = true) :
    s.label style type = s.headLabel style type := by
  obtain ⟨d, hd, -⟩ := (Option.any_eq_true _ _).mp h
  have hleaf := hs.definitionOf?_parameter h
  cases hkeyword : s.shownKeyword? style type with
  | some keyword =>
    rw [label_of_keyword hd hkeyword, headLabel, hd]
    dsimp only
    rw [hkeyword, Option.getD_some]
  | none =>
    have hplain : d.isGeneric = false := by
      rw [definitionOf?, hd, Option.map_some] at hleaf
      unfold Descriptor.isGeneric
      split <;> simp_all
    rw [label_plain hd hkeyword hplain, headLabel, hd]
    dsimp only
    rw [hkeyword, Option.getD_none]

/-- Options that are all there are there together. -/
theorem mapM_eq_some {α β : Type} {f : α → Option β} {g : α → β} {as : List α}
    (h : ∀ a ∈ as, f a = some (g a)) : as.mapM f = some (as.map g) := by
  rw [mapM_congr h]
  exact List.mapM_pure

/-- The writing of a label goes down no further than the arguments are nested. -/
theorem labelWithin_eq (hs : s.WellFormed) (style : LabelStyle) (depth : Nat) :
    ∀ type, s.nesting type < depth →
      s.labelWithin style depth type = some (s.label style type) := by
  induction depth with
  | zero => exact fun type h => absurd h (Nat.not_lt_zero _)
  | succ depth ih =>
    intro type hdepth
    rw [labelWithin]
    cases hd : s.get? type with
    | none =>
      rw [label, hd]
    | some d =>
    cases hkeyword : s.shownKeyword? style type with
    | some keyword =>
      rw [label_of_keyword hd hkeyword]
    | none =>
      have hshown : d.arguments.mapM (labelWithin s style depth) =
          some (d.arguments.map (s.label style)) :=
        mapM_eq_some fun arg harg => ih arg
          (Nat.lt_of_lt_of_le (hs.nesting_lt ⟨d, hd, harg⟩) (Nat.le_of_lt_succ hdepth))
      dsimp only
      rw [hshown, Option.bind_eq_bind, Option.bind_some]
      cases horigin : d.origin with
      | instantiation definition args isOpen =>
        have harguments : d.arguments = args := by rw [Descriptor.arguments, horigin]
        rw [harguments, label_instantiation hs hd hkeyword horigin]
      | definition params =>
        have harguments : d.arguments = params := by rw [Descriptor.arguments, horigin]
        have ho := origin?_of_get? hd
        rw [horigin] at ho
        have hshown : params.map (s.label style) = params.map (s.headLabel style) :=
          List.map_congr_left fun param hparam =>
            hs.label_parameter (hs.isParameter_of_mem ho hparam)
        rw [harguments, label_definition hd hkeyword horigin, hshown]
      | declared | typeParameter _ _ | methodParameter =>
        have harguments : d.arguments = [] := by rw [Descriptor.arguments, horigin]
        have hplain : d.isGeneric = false := by rw [Descriptor.isGeneric, horigin]
        rw [harguments, label_plain hd hkeyword hplain]
        exact congrArg some (String.append_empty)

/-! ## Matching -/

/-- Matches the candidate arguments against the pattern arguments pairwise, up to the first
failure. -/
def matchPairsWithin (match1 : TypeId → TypeId → Bindings String TypeId → Option MatchResult) :
    List TypeId → List TypeId → Bindings String TypeId → Option MatchResult
  | [], [], b => some (.ok (true, b))
  | arg :: args, pattern :: patterns, b => do
    match ← match1 arg pattern b with
    | .ok (true, b) => matchPairsWithin match1 args patterns b
    | failed => some failed
  | _, _, b => some (.ok (false, b))

/-- Matches a candidate against a pattern, unless matching goes down more than `depth` levels, the
pattern itself counted. -/
def matchWithin (s : Store) : Nat → TypeId → TypeId → Bindings String TypeId → Option MatchResult
  | 0, _, _, _ => none
  | depth + 1, candidate, pattern, b =>
    match s.descriptor candidate, s.shape pattern, s.descriptor pattern with
    | .error error, _, _ => some (.error error)
    | .ok _, .error error, _ => some (.error error)
    | .ok _, .ok _, .error error => some (.error error)
    | .ok d, .ok shape, .ok p =>
      match shape with
      | .variable name => some (.ok (true, b.bind name candidate))
      | .plain => some ((s.accepts pattern candidate).map fun accepted => (accepted, b))
      | .nullableWrapper definition _ =>
        if s.definitionOf? candidate = some definition then
          matchPairsWithin (s.matchWithin depth) d.arguments p.arguments b
        else if d.isValueType then
          match p.arguments with
          | [inner] => s.matchWithin depth candidate inner b
          | _ => some (.ok (false, b))
        else some (.ok (false, b))
      | .definition definition | .facade definition | .instantiation definition =>
        match s.nearestBuiltFrom candidate definition with
        | .error error => some (.error error)
        | .ok none => some (.ok (false, b))
        | .ok (some found) =>
          match s.descriptor found with
          | .error error => some (.error error)
          | .ok f => matchPairsWithin (s.matchWithin depth) f.arguments p.arguments b

/-- Pairs are matched if the patterns are not too deep. -/
theorem matchPairsWithin_eq
    {match1 : TypeId → TypeId → Bindings String TypeId → Option MatchResult}
    {match2 : TypeId → TypeId → Bindings String TypeId → MatchResult} :
    ∀ (args patterns : List TypeId) (b : Bindings String TypeId),
      (∀ pattern ∈ patterns, ∀ arg b, match1 arg pattern b = some (match2 arg pattern b)) →
      matchPairsWithin match1 args patterns b = some (matchPairs match2 args patterns b)
  | [], [], _, _ => rfl
  | [], _ :: _, _, _ => rfl
  | _ :: _, [], _, _ => rfl
  | arg :: args, pattern :: patterns, b, h => by
    obtain ⟨hfirst, hrest⟩ := List.forall_mem_cons.mp h
    rw [matchPairsWithin, matchPairs, hfirst, Option.bind_eq_bind, Option.bind_some]
    cases match2 arg pattern b with
    | error error => rfl
    | ok result =>
      obtain ⟨matched, b'⟩ := result
      cases matched with
      | false => rfl
      | true => exact matchPairsWithin_eq args patterns b' hrest

/-- An argument of a pattern is matched as a pattern itself, also if it is a parameter. -/
theorem WellFormed.matchArgument_eq_matchInto (hs : s.WellFormed) {p : Descriptor}
    (hp : s.get? pattern = some p) {inner : TypeId} (hinner : inner ∈ p.arguments) (arg : TypeId)
    (b : Bindings String TypeId) :
    s.matchArgument pattern arg inner b = s.matchInto arg inner b := by
  rw [matchArgument]
  split
  · rfl
  next hnot =>
  obtain ⟨name, -, hshape⟩ := shape_parameter (hs.isParameter_of_not_lt hp hinner hnot)
  obtain ⟨d, hd⟩ := exists_get? (hs.arguments_lt hp inner hinner)
  rw [matchParameter, matchInto, hshape, descriptor_eq_ok.mpr hd]
  cases s.descriptor arg <;> rfl

/-- Matching goes down no further than the arguments of the pattern are nested. -/
theorem matchWithin_eq (hs : s.WellFormed) (depth : Nat) :
    ∀ (candidate pattern : TypeId) (b : Bindings String TypeId), s.nesting pattern < depth →
      s.matchWithin depth candidate pattern b = some (s.matchInto candidate pattern b) := by
  induction depth with
  | zero => exact fun _ _ _ h => absurd h (Nat.not_lt_zero _)
  | succ depth ih =>
    intro candidate pattern b hdepth
    rw [matchWithin]
    cases hd : s.descriptor candidate with
    | error error =>
      rw [matchInto, hd]
      rfl
    | ok d =>
    cases hshape : s.shape pattern with
    | error error =>
      rw [matchInto, hd, hshape]
      rfl
    | ok shape =>
    obtain ⟨p, hp, -⟩ := hs.shape_cases hshape
    rw [descriptor_eq_ok.mpr hp, matchInto_eq (descriptor_eq_ok.mp hd) hp hshape]
    have harguments : ∀ inner ∈ p.arguments, ∀ arg b,
        s.matchWithin depth arg inner b = some (s.matchArgument pattern arg inner b) := by
      intro inner hinner arg b
      rw [hs.matchArgument_eq_matchInto hp hinner]
      exact ih arg inner b
        (Nat.lt_of_lt_of_le (hs.nesting_lt ⟨p, hp, hinner⟩) (Nat.le_of_lt_succ hdepth))
    have hpairs := fun args => matchPairsWithin_eq args p.arguments b harguments
    cases shape with
    | nullableWrapper definition isOpen =>
      dsimp only
      rw [matchShape]
      split
      · exact hpairs d.arguments
      split
      swap
      · rfl
      cases hargs : p.arguments with
      | nil => rfl
      | cons inner rest =>
        cases rest with
        | nil => exact harguments inner (hargs ▸ List.mem_cons_self) candidate b
        | cons => rfl
    | definition definition | facade definition | instantiation definition =>
      dsimp only
      rw [matchShape]
      cases hfound : s.nearestBuiltFrom candidate definition with
      | error error =>
        rw [matchNearest, hfound]
        rfl
      | ok found =>
        cases found with
        | none => rw [matchNearest_of_none hfound]
        | some found =>
          dsimp only
          obtain ⟨f, hf⟩ := exists_get? (lt_of_definitionOf? (of_nearestBuiltFrom hfound).2.1)
          rw [matchNearest_of_found hfound hf, descriptor_eq_ok.mpr hf]
          exact hpairs f.arguments
    | _ => rfl

/-! ## Reachable stores -/

/-- Every recursion over arguments comes to an end from this store. Those that add types come, with
any number of nested calls that is large enough, to the end that they are bounded to. They pass
through moments only in which no type is reached from itself and requests are nested no more than
once beyond the limit. -/
structure Terminates (s : Store) : Prop where
  wellFounded : WellFounded s.IsArgument
  not_self : ∀ type, ¬ Relation.TransGen s.IsArgument type type
  instantiateAt : ∀ depth ≤ maxInstantiationDepth + 1, ∀ definition args,
    Follows (instantiateAt · depth definition args)
      (instantiateWithin (maxInstantiationDepth + 1 - depth) definition args) s
  fillAt : ∀ depth ≤ maxInstantiationDepth, ∀ definition type,
    Follows (fillAt · depth definition type)
      (substituteSupertypes (instantiateWithin (maxInstantiationDepth - depth)) definition type) s
  substituteAt : ∀ depth ≤ maxInstantiationDepth + 1, ∀ params args type,
    Follows (substituteAt · depth params args type)
      (substitute (instantiateWithin (maxInstantiationDepth + 1 - depth)) params args type) s
  instantiate : ∀ definition args,
    Follows (instantiateTraced · definition args) (instantiate definition args) s
  declare : ∀ d order, Follows (declareTraced · d order) (declare d order) s
  label : ∀ style type, s.labelWithin style (s.nesting type + 1) type = some (s.label style type)
  matchInto : ∀ candidate pattern b,
    s.matchWithin (s.nesting pattern + 1) candidate pattern b =
      some (s.matchInto candidate pattern b)

/-- From a reachable store every recursion over arguments comes to an end. -/
theorem Reachable.terminates (hs : s.Reachable) : s.Terminates := by
  have hcoherent := hs.coherent
  have hwf := hcoherent.wellFormed
  have happly := instantiateWithin_applies
  have hfollows : ∀ {depth : Nat}, depth ≤ maxInstantiationDepth + 1 →
      ∀ t, t.Coherent → ∀ definition args, Follows (Store.instantiateAt · depth definition args)
        (instantiateWithin (maxInstantiationDepth + 1 - depth) definition args) t :=
    fun hdepth t ht => follows_instantiateAt _ (Nat.add_sub_cancel' hdepth) ht
  exact
    { wellFounded := hwf.wellFounded_isArgument
      not_self := not_transGen_isArgument hwf.wellFounded_isArgument
      instantiateAt := fun depth hdepth => hfollows hdepth s hcoherent
      fillAt := fun depth hdepth definition type => by
        have hnext := hfollows (Nat.succ_le_succ hdepth)
        rw [Nat.add_sub_add_right] at hnext
        exact follows_fillAt hdepth (happly _ _) hnext hcoherent
      substituteAt := fun depth hdepth params args type =>
        follows_substituteAt hdepth (hfollows hdepth) (happly _ _) hcoherent
      instantiate := follows_instantiateTraced hcoherent
      declare := follows_declareTraced hcoherent
      label := fun style type => labelWithin_eq hwf style _ type (Nat.lt_succ_self _)
      matchInto := fun candidate pattern b =>
        matchWithin_eq hwf _ candidate pattern b (Nat.lt_succ_self _) }

/-- A definition `Base<T>`. -/
def withBase : Store :=
  Store.empty.afterAll
    [.declare { Declaration.plain .classType "Base" with parameters := ["T"] }]

theorem reachable_withBase : withBase.Reachable := Reachable.empty.afterAll _

/-- The declaration of `Node<T>` below `Base<Node<Node<T>>>`, so that each of its instantiations has
a larger one as an argument of its base type. -/
def expanding : Declaration :=
  { Declaration.plain .classType "Node" with
    parameters := ["T"]
    base := some "Base<Node<Node<T>>>" }

/-- The declaration comes to an end, which is an error. -/
theorem terminates_expanding : ∃ (enough : Nat) (t : Store) (moments : List Moment),
    (∀ moment ∈ moments, moment.IsSafe) ∧ ∀ calls ≥ enough,
      declareTraced calls expanding .oldestFirst ⟨withBase, []⟩ =
        some (.error (.instantiationTooDeep "Node<T>"), ⟨t, moments⟩) := by
  have hlimit : (Store.declare expanding .oldestFirst withBase).1 =
      .error (.instantiationTooDeep "Node<T>") := by decide +kernel
  obtain ⟨enough, moments, hsafe, hrun⟩ :=
    reachable_withBase.terminates.declare expanding .oldestFirst
  refine ⟨enough, (Store.declare expanding .oldestFirst withBase).2, moments, hsafe,
    fun calls hcalls => ?_⟩
  have hresult := hrun calls hcalls []
  rw [hlimit, List.append_nil] at hresult
  exact hresult

end NominalTypes.Store
