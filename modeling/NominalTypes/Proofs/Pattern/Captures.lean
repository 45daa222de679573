import NominalTypes.Proofs.Building.Arguments
import NominalTypes.Proofs.Totality

/-!
# What a match binds

Matching follows the tree of the pattern. At a variable it captures the candidate, at another leaf
it asks whether the candidate is accepted, and at a generic type it goes on with the arguments that
the candidate presents. What is captured does not depend on what has been bound before, and is
appended to it in the order of the leaves.

- `Bindings.bindAll`, `Bindings.Extends`: several bindings one after the other, which take none
  away.
- `Store.variablesIn`: the variables at the leaves of a tree.
- `Store.presented?`: the arguments that a candidate presents to a definition.
- `Store.captures`: the outcome of a match and what it captures, along the tree of the pattern.
- `Store.MatchesOlder`: what the induction on patterns carries.
- `Store.WellFormed.matchInto_eq_captures`: matching does just that.
- `Store.Reachable.matchInto_binds`: the main result.
-/

namespace NominalTypes

/-! ## Bindings one after the other -/

namespace Bindings

variable {α β : Type} [DecidableEq α] {b : Bindings α β} {name : α}

/-- Binds variables one after the other. -/
def bindAll (b : Bindings α β) (entries : List (α × β)) : Bindings α β :=
  entries.foldl (fun b entry => b.bind entry.1 entry.2) b

theorem bindAll_cons (b : Bindings α β) (entry : α × β) (entries : List (α × β)) :
    b.bindAll (entry :: entries) = (b.bind entry.1 entry.2).bindAll entries := rfl

theorem bindAll_append (b : Bindings α β) (first others : List (α × β)) :
    b.bindAll (first ++ others) = (b.bindAll first).bindAll others := List.foldl_append

theorem names_bindIn (name : α) (value : β) (entries : List (α × List β)) :
    (bindIn name value entries).map Prod.fst =
      if name ∈ entries.map Prod.fst then entries.map Prod.fst
      else entries.map Prod.fst ++ [name] := by
  induction entries with
  | nil => simp [bindIn]
  | cons entry rest ih =>
    obtain ⟨other, values⟩ := entry
    by_cases h : other = name
    · simp [bindIn, h]
    · rw [bindIn, if_neg h, List.map_cons, ih, List.map_cons]
      by_cases hmem : name ∈ rest.map Prod.fst
      · rw [if_pos hmem, if_pos (List.mem_cons_of_mem _ hmem)]
      · rw [if_neg hmem, if_neg, List.cons_append]
        rw [List.mem_cons, not_or]
        exact ⟨Ne.symm h, hmem⟩

/-- A binding adds its variable at the end, unless it has been bound before. -/
theorem names_bind (b : Bindings α β) (name : α) (value : β) :
    (b.bind name value).names = if name ∈ b.names then b.names else b.names ++ [name] :=
  names_bindIn name value b.entries

/-- The bound variables are those that have values. -/
theorem mem_names_iff : name ∈ b.names ↔ ∃ values, b.get? name = some values := by
  rw [names, List.mem_map, get?]
  constructor
  · rintro ⟨entry, hentry, rfl⟩
    cases hlookup : b.entries.lookup entry.1 with
    | some values => exact ⟨values, rfl⟩
    | none =>
      have hnot := List.lookup_eq_none_iff.mp hlookup entry hentry
      rw [bne_self_eq_false] at hnot
      cases hnot
  · rintro ⟨values, hvalues⟩
    obtain ⟨before, after, heq, -⟩ := List.lookup_eq_some_iff.mp hvalues
    exact ⟨(name, values), by rw [heq]; exact List.mem_append_right _ List.mem_cons_self, rfl⟩

/-- The variables after several bindings: those that were bound before, and then the new ones in the
order of their first occurrence. -/
theorem names_bindAll (b : Bindings α β) (entries : List (α × β)) :
    (b.bindAll entries).names =
      b.names ++ ((entries.map Prod.fst).filter fun name => name ∉ b.names).eraseDups := by
  induction entries generalizing b with
  | nil => simp [bindAll]
  | cons entry rest ih =>
    rw [bindAll_cons, ih, names_bind, List.map_cons, List.filter_cons]
    by_cases hmem : entry.1 ∈ b.names
    · rw [if_pos hmem, if_neg (by simpa using hmem)]
    · rw [if_neg hmem, if_pos (by simpa using hmem), List.eraseDups_cons, List.filter_filter,
        List.append_assoc, List.singleton_append]
      congr 3
      refine List.filter_congr fun name _ => ?_
      by_cases heq : name = entry.1 <;> simp [heq]

/-- Several bindings append to what each variable is bound to, in their order. -/
theorem getD_get?_bindAll (b : Bindings α β) (entries : List (α × β)) (name : α) :
    ((b.bindAll entries).get? name).getD [] =
      (b.get? name).getD [] ++ (entries.filter (·.1 = name)).map Prod.snd := by
  induction entries generalizing b with
  | nil => simp [bindAll]
  | cons entry rest ih =>
    rw [bindAll_cons, ih, List.filter_cons]
    by_cases heq : entry.1 = name
    · rw [if_pos (decide_eq_true heq), heq, get?_bind_self, Option.getD_some, List.append_assoc,
        List.map_cons, List.singleton_append]
    · rw [if_neg (by simpa using heq), get?_bind_of_ne b (Ne.symm heq)]

/-- Nothing that is bound has been removed, moved or changed, and only further values may follow. -/
structure Extends (b b' : Bindings α β) : Prop where
  names : b.names <+: b'.names
  values : ∀ name values, b.get? name = some values →
    ∃ more, b'.get? name = some (values ++ more)

/-- Bindings take nothing away. -/
theorem extends_bindAll (b : Bindings α β) (entries : List (α × β)) :
    b.Extends (b.bindAll entries) := by
  constructor
  · rw [names_bindAll]
    exact List.prefix_append _ _
  · intro name values hvalues
    have hmem : name ∈ (b.bindAll entries).names := by
      rw [names_bindAll]
      exact List.mem_append_left _ (mem_names_iff.mpr ⟨values, hvalues⟩)
    obtain ⟨values', hvalues'⟩ := mem_names_iff.mp hmem
    have happend := b.getD_get?_bindAll entries name
    rw [hvalues', hvalues, Option.getD_some, Option.getD_some] at happend
    exact ⟨_, happend ▸ hvalues'⟩

/-- What has been bound on the way is bound at the end. -/
theorem binds_bindAll (b : Bindings α β) {entries : List (α × β)} {value : β}
    (h : (name, value) ∈ entries) : (b.bindAll entries).Binds name value := by
  have hmem : name ∈ (b.bindAll entries).names := by
    rw [names_bindAll, List.mem_append, List.mem_eraseDups, List.mem_filter]
    by_cases hold : name ∈ b.names
    · exact .inl hold
    · exact .inr ⟨List.mem_map_of_mem (f := Prod.fst) h, by simpa using hold⟩
  obtain ⟨values, hvalues⟩ := mem_names_iff.mp hmem
  have happend := b.getD_get?_bindAll entries name
  rw [hvalues, Option.getD_some] at happend
  refine ⟨values, hvalues, ?_⟩
  rw [happend, List.mem_append, List.mem_map]
  exact .inr ⟨(name, value), List.mem_filter.mpr ⟨h, by simp⟩, rfl⟩

end Bindings

namespace Store

variable {s : Store} {type candidate pattern definition : TypeId} {args : List TypeId}

/-! ## Presented arguments -/

/-- The arguments with which a candidate stands up to a definition, if it does: those of the nearest
supertype that has the definition, and for the nullable wrapper its own or, for another value type,
the candidate itself. -/
def presented? (s : Store) (candidate definition : TypeId) : Option (List TypeId) :=
  if s.roles.nullable = some definition ∧ s.definitionOf? candidate ≠ some definition then
    if s.kind? candidate = some .valueType then some [candidate] else none
  else
    match s.nearestBuiltFrom candidate definition with
    | .ok (some found) => (s.get? found).map Descriptor.arguments
    | _ => none

theorem presented?_eq_some_iff :
    s.presented? candidate definition = some args ↔ s.Presents candidate definition args := by
  unfold presented?
  constructor
  · intro h
    split at h
    · next hlift =>
      split at h
      · next hvalue =>
        cases h
        exact .lifted hlift.1 hvalue hlift.2
      · cases h
    next hdirect =>
    split at h
    · next found hfound =>
      obtain ⟨f, hf, rfl⟩ := Option.map_eq_some_iff.mp h
      refine .supertype hfound (fun hnullable => ?_) hf
      have hself : s.definitionOf? candidate = some definition := by
        by_contra hother
        exact hdirect ⟨hnullable, hother⟩
      obtain ⟨c, hc⟩ := exists_get? (lt_of_definitionOf? hself)
      rw [nearestBuiltFrom_self hc hself] at hfound
      cases hfound
      rfl
    · cases h
  · intro h
    cases h with
    | @supertype found f hfound hnullable hf =>
      rw [if_neg, hfound]
      · exact congrArg (Option.map Descriptor.arguments) hf
      · rintro ⟨hrole, hother⟩
        rw [← hnullable hrole] at hother
        exact hother (of_nearestBuiltFrom hfound).2.1
    | lifted hnullable hvalue hother => rw [if_pos ⟨hnullable, hother⟩, if_pos hvalue]

/-- A type presents its own arguments to its definition. -/
theorem presented?_self {c : Descriptor} (hc : s.get? candidate = some c)
    (hself : s.definitionOf? candidate = some definition) :
    s.presented? candidate definition = some c.arguments :=
  presented?_eq_some_iff.mpr (.supertype (nearestBuiltFrom_self hc hself) (fun _ => rfl) hc)

/-- To other definitions than the nullable wrapper, a candidate presents the arguments of its nearest
supertype. -/
theorem presented?_of_ne (hrole : s.roles.nullable ≠ some definition) :
    s.presented? candidate definition =
      match s.nearestBuiltFrom candidate definition with
      | .ok (some found) => (s.get? found).map Descriptor.arguments
      | _ => none := if_neg fun h => hrole h.1

/-- To the nullable wrapper, a value type that is not wrapped presents itself. -/
theorem presented?_nullable (hrole : s.roles.nullable = some definition)
    (hother : s.definitionOf? candidate ≠ some definition) :
    s.presented? candidate definition =
      if s.kind? candidate = some .valueType then some [candidate] else none :=
  if_pos ⟨hrole, hother⟩

/-- What a candidate presents is known. -/
theorem Presents.args_lt (h : s.Presents candidate definition args) (hs : s.WellFormed) :
    ∀ arg ∈ args, arg < s.size := by
  cases h with
  | supertype _ _ hf => exact hs.arguments_lt hf
  | lifted _ hvalue => exact fun arg harg => List.mem_singleton.mp harg ▸ lt_of_kind? hvalue

/-! ## Captures along a tree -/

/-- The variables at the leaves of a tree, from left to right. -/
def variablesIn (s : Store) (tree : TypeTree) : List String := tree.leaves.filterMap s.variableName?

mutual

/-- Whether a candidate matches the pattern that reads as a tree, and what the variables of the
pattern capture, up to the first failure and from left to right. -/
def captures (s : Store) : TypeTree → TypeId → Bool × List (String × TypeId)
  | .leaf type, candidate =>
    match s.variableName? type with
    | some name => (true, [(name, candidate)])
    | none => ((s.accepts type candidate).toOption.getD false, [])
  | .node definition trees, candidate =>
    match s.presented? candidate definition with
    | some args => s.capturesAll trees args
    | none => (false, [])

/-- The same for candidates and patterns one by one. -/
def capturesAll (s : Store) : List TypeTree → List TypeId → Bool × List (String × TypeId)
  | [], [] => (true, [])
  | tree :: trees, arg :: args =>
    match s.captures tree arg with
    | (false, found) => (false, found)
    | (true, found) => ((s.capturesAll trees args).1, found ++ (s.capturesAll trees args).2)
  | _, _ => (false, [])

end

theorem variablesIn_leaf (s : Store) (type : TypeId) :
    s.variablesIn (.leaf type) = (s.variableName? type).toList := by
  rw [variablesIn, TypeTree.leaves]
  cases h : s.variableName? type <;> simp [h]

theorem variablesIn_node (s : Store) (definition : TypeId) (trees : List TypeTree) :
    s.variablesIn (.node definition trees) = trees.flatMap s.variablesIn := by
  rw [variablesIn, TypeTree.leaves, List.filterMap_flatMap]
  rfl

/-- What is captured and how a match ends fit the variables of the pattern: the names of the
captures are the variables, or if the match fails, the first of them. -/
def CapturesFit (result : Bool × List (String × TypeId)) (names : List String) : Prop :=
  result.2.map Prod.fst <+: names ∧ (result.1 = true → result.2.map Prod.fst = names)

mutual

theorem capturesFit (s : Store) : ∀ (tree : TypeTree) (candidate : TypeId),
    CapturesFit (s.captures tree candidate) (s.variablesIn tree)
  | .leaf type, candidate => by
    rw [captures, variablesIn_leaf]
    cases s.variableName? type with
    | some name => exact ⟨List.prefix_refl _, fun _ => rfl⟩
    | none => exact ⟨List.prefix_refl _, fun _ => rfl⟩
  | .node definition trees, candidate => by
    rw [captures, variablesIn_node]
    cases s.presented? candidate definition with
    | some args => exact capturesFit_all s trees args
    | none => exact ⟨List.nil_prefix, fun h => (nomatch h)⟩

theorem capturesFit_all (s : Store) : ∀ (trees : List TypeTree) (args : List TypeId),
    CapturesFit (s.capturesAll trees args) (trees.flatMap s.variablesIn)
  | [], [] => ⟨List.prefix_refl _, fun _ => rfl⟩
  | [], _ :: _ => ⟨List.prefix_refl _, fun h => (nomatch h)⟩
  | _ :: _, [] => ⟨List.nil_prefix, fun h => (nomatch h)⟩
  | tree :: trees, arg :: args => by
    obtain ⟨hfront, hall⟩ := capturesFit s tree arg
    obtain ⟨hothers, hothersAll⟩ := capturesFit_all s trees args
    rw [capturesAll, List.flatMap_cons]
    rcases hfirst : s.captures tree arg with ⟨matched, found⟩
    rw [hfirst] at hfront hall
    cases matched with
    | false => exact ⟨hfront.trans (List.prefix_append _ _), fun h => (nomatch h)⟩
    | true =>
      dsimp only [CapturesFit]
      rw [List.map_append, hall rfl]
      exact ⟨(List.prefix_append_right_inj _).mpr hothers,
        fun hmatched => by rw [hothersAll hmatched]⟩

end

/-! ## Matching along the tree of the pattern -/

/-- The result of a match that captures something: the captures are bound one after the other. -/
def boundBy (b : Bindings String TypeId) (result : Bool × List (String × TypeId)) : MatchResult :=
  .ok (result.1, b.bindAll result.2)

/-- Pairs are matched along their trees if each of them is. -/
theorem matchPairs_eq_capturesAll
    {match1 : TypeId → TypeId → Bindings String TypeId → MatchResult} :
    ∀ {args patterns : List TypeId},
      (∀ arg ∈ args, ∀ inner ∈ patterns, ∀ b,
        match1 arg inner b = boundBy b (s.captures (s.tree inner) arg)) →
      ∀ b, matchPairs match1 args patterns b =
        boundBy b (s.capturesAll (patterns.map s.tree) args)
  | [], [], _, b => rfl
  | [], _ :: _, _, b => rfl
  | _ :: _, [], _, b => rfl
  | arg :: args, inner :: patterns, h, b => by
    have hothers : ∀ b, matchPairs match1 args patterns b =
        boundBy b (s.capturesAll (patterns.map s.tree) args) :=
      matchPairs_eq_capturesAll fun a ha p hp =>
        h a (List.mem_cons_of_mem _ ha) p (List.mem_cons_of_mem _ hp)
    rw [matchPairs, h arg List.mem_cons_self inner List.mem_cons_self b, List.map_cons, capturesAll]
    rcases s.captures (s.tree inner) arg with ⟨matched, found⟩
    cases matched with
    | false => rfl
    | true =>
      refine (hothers (b.bindAll found)).trans ?_
      rw [boundBy, boundBy, Bindings.bindAll_append]

/-- A generic parameter has the shape of a variable. -/
theorem shape_parameter (h : s.isParameter type = true) :
    ∃ name, s.variableName? type = some name ∧ s.shape type = .ok (.variable name) := by
  obtain ⟨d, hd, hparameter⟩ := (Option.any_eq_true _ _).mp h
  refine ⟨d.name, by rw [variableName?_of_get? hd, if_pos hparameter], ?_⟩
  rw [shape, descriptor_eq_ok.mpr hd]
  show (if d.isParameter then _ else _) = _
  rw [if_pos hparameter]
  rfl

theorem matchPairs_singleton (match1 : TypeId → TypeId → Bindings String TypeId → MatchResult)
    (arg inner : TypeId) (b : Bindings String TypeId) :
    matchPairs match1 [arg] [inner] b = match1 arg inner b := by
  rw [matchPairs]
  rcases match1 arg inner b with error | ⟨matched, b'⟩
  · rfl
  · cases matched <;> rfl

namespace WellFormed

/-- Generic types have as many arguments as their definition has parameters. -/
theorem length_arguments (hs : s.WellFormed) {d : Descriptor} {params : List TypeId}
    (hd : s.get? type = some d) (hdefinition : s.definitionOf? type = some definition)
    (hparams : s.origin? definition = some (.definition params)) :
    d.arguments.length = params.length := by
  have ho := origin?_of_get? hd
  rw [definitionOf?_eq_origin?, ho] at hdefinition
  unfold Descriptor.arguments
  split at hdefinition
  · next params' horigin =>
    cases hdefinition
    rw [Option.some.inj horigin] at ho ⊢
    rw [ho] at hparams
    cases hparams
    rfl
  · next generic args isOpen horigin =>
    cases hdefinition
    rw [Option.some.inj horigin] at ho ⊢
    obtain ⟨_, -, hsound⟩ := hs.instantiation ho
    obtain ⟨params', hparams', hlength, -⟩ := hsound.parameters
    rw [hparams] at hparams'
    cases hparams'
    exact hlength.symm
  · cases hdefinition

/-- A parameter captures the candidate. -/
theorem captures_parameter (hs : s.WellFormed) (h : s.isParameter type = true) {name : String}
    (hname : s.variableName? type = some name) (candidate : TypeId) :
    s.captures (s.tree type) candidate = (true, [(name, candidate)]) := by
  rw [hs.tree_parameter h, captures, hname]

theorem matchParameter_eq_captures (hs : s.WellFormed) (hcandidate : candidate < s.size)
    (h : s.isParameter type = true) (b : Bindings String TypeId) :
    s.matchParameter candidate type b = boundBy b (s.captures (s.tree type) candidate) := by
  obtain ⟨name, hname, hshape⟩ := shape_parameter h
  obtain ⟨c, hc⟩ := exists_get? hcandidate
  rw [hs.captures_parameter h hname, matchParameter, descriptor_eq_ok.mpr hc, hshape]
  rfl

end WellFormed

section Generic

variable {p d : Descriptor}

/-- The known types that are older than a pattern are matched along their trees. -/
def MatchesOlder (s : Store) (pattern : TypeId) : Prop :=
  ∀ inner, inner < pattern → inner < s.size → ∀ candidate, candidate < s.size → ∀ b,
    s.matchInto candidate inner b = boundBy b (s.captures (s.tree inner) candidate)

namespace MatchesOlder

/-- So are the arguments of a generic pattern, which are older or parameters. -/
theorem matchArgument_eq (h : s.MatchesOlder pattern) (hs : s.WellFormed)
    (hp : s.get? pattern = some p) {arg inner : TypeId} (harg : arg < s.size)
    (hinner : inner ∈ p.arguments) (b : Bindings String TypeId) :
    s.matchArgument pattern arg inner b = boundBy b (s.captures (s.tree inner) arg) := by
  by_cases hlt : inner < pattern
  · rw [matchArgument, if_pos hlt]
    exact h inner hlt (hs.arguments_lt hp inner hinner) arg harg b
  -- the walk ends at the parameters of a definition, which are variables
  · rw [matchArgument, if_neg hlt]
    exact hs.matchParameter_eq_captures harg (hs.isParameter_of_not_lt hp hinner hlt) b

/-- Presented arguments are matched along the tree of the pattern. -/
theorem matchPairs_eq (h : s.MatchesOlder pattern) (hs : s.WellFormed)
    (hp : s.get? pattern = some p) (hdefinition : s.definitionOf? pattern = some definition)
    (hargs : s.presented? candidate definition = some args) (b : Bindings String TypeId) :
    matchPairs (s.matchArgument pattern) args p.arguments b =
      boundBy b (s.captures (s.tree pattern) candidate) := by
  have hknown := (presented?_eq_some_iff.mp hargs).args_lt hs
  rw [hs.tree_generic hp hdefinition, captures, hargs]
  exact matchPairs_eq_capturesAll
    (fun arg harg inner hinner b => h.matchArgument_eq hs hp (hknown arg harg) hinner b) b

end MatchesOlder

/-- A candidate that presents nothing fails at once. -/
theorem WellFormed.boundBy_of_none (hs : s.WellFormed) (hp : s.get? pattern = some p)
    (hdefinition : s.definitionOf? pattern = some definition)
    (hnone : s.presented? candidate definition = none) (b : Bindings String TypeId) :
    boundBy b (s.captures (s.tree pattern) candidate) = .ok (false, b) := by
  rw [hs.tree_generic hp hdefinition, captures, hnone]
  rfl

namespace MatchesOlder

/-- The arguments of the nearest supertype are the presented ones. -/
theorem matchNearest_eq (h : s.MatchesOlder pattern) (hs : s.WellFormed)
    (hcandidate : candidate < s.size) (hp : s.get? pattern = some p)
    (hdefinition : s.definitionOf? pattern = some definition)
    (hrole : s.roles.nullable ≠ some definition) (b : Bindings String TypeId) :
    s.matchNearest candidate pattern definition p b =
      boundBy b (s.captures (s.tree pattern) candidate) := by
  obtain ⟨_ | found, hfound⟩ := hs.answered_nearestBuiltFrom hcandidate definition
  · rw [matchNearest_of_none hfound, hs.boundBy_of_none hp hdefinition]
    rw [presented?_of_ne hrole, hfound]
  · obtain ⟨f, hf⟩ := exists_get?_of_nearestBuiltFrom hfound
    rw [matchNearest_of_found hfound hf, h.matchPairs_eq hs hp hdefinition]
    rw [presented?_of_ne hrole, hfound]
    exact congrArg (Option.map Descriptor.arguments) hf

/-- For the nullable wrapper they are those of the candidate, or the candidate itself. -/
theorem matchShape_nullable_eq (h : s.MatchesOlder pattern) (hs : s.WellFormed)
    (hd : s.get? candidate = some d) (hp : s.get? pattern = some p)
    (hdefinition : s.definitionOf? pattern = some definition)
    (hrole : s.roles.nullable = some definition) (isOpen : Bool) (b : Bindings String TypeId) :
    s.matchShape candidate pattern d p b (.nullableWrapper definition isOpen) =
      boundBy b (s.captures (s.tree pattern) candidate) := by
  rw [matchShape]
  by_cases hself : s.definitionOf? candidate = some definition
  · rw [if_pos hself]
    exact h.matchPairs_eq hs hp hdefinition (presented?_self hd hself) b
  have hpresented := presented?_nullable hrole hself
  rw [if_neg hself]
  by_cases hvalue : d.isValueType = true
  · have hkind : s.kind? candidate = some .valueType := by
      rw [kind?_of_get? hd, eq_of_beq hvalue]
    obtain ⟨-, param, hparam⟩ := hs.roles.nullable definition hrole
    obtain ⟨inner, hinner⟩ := List.length_eq_one_iff.mp (hs.length_arguments hp hdefinition hparam)
    have hlift := h.matchPairs_eq hs hp hdefinition (hpresented.trans (if_pos hkind)) b
    rw [hinner, matchPairs_singleton] at hlift
    rw [if_pos hvalue, hinner]
    exact hlift
  · rw [if_neg hvalue, hs.boundBy_of_none hp hdefinition]
    rw [hpresented, if_neg]
    rw [kind?_of_get? hd]
    simpa [Descriptor.isValueType] using hvalue

end MatchesOlder

end Generic

namespace WellFormed

/-- Matching binds what is captured along the tree of the pattern. -/
theorem matchInto_eq_captures (hs : s.WellFormed) (hcandidate : candidate < s.size)
    (hpattern : pattern < s.size) (b : Bindings String TypeId) :
    s.matchInto candidate pattern b = boundBy b (s.captures (s.tree pattern) candidate) := by
  induction pattern using Nat.strongRecOn generalizing candidate b with
  | ind pattern ih =>
    have holder : s.MatchesOlder pattern := fun inner hlt hinner candidate hcandidate b =>
      ih inner hlt hcandidate hinner b
    obtain ⟨d, hd⟩ := exists_get? hcandidate
    obtain ⟨shape, hshape⟩ := answered_shape hpattern
    obtain ⟨p, hp, ⟨name, rfl, hname⟩ | ⟨rfl, hname, hplain⟩ |
      ⟨definition, hname, hdefinition, hgeneric, -, hnullable⟩⟩ := hs.shape_cases hshape
    · have hparameter : s.isParameter pattern = true := by
        rw [← variableName?_isSome, hname]
        rfl
      rw [matchInto_eq hd hp hshape, hs.captures_parameter hparameter hname]
      rfl
    · obtain ⟨accepted, haccepts⟩ := hs.answered_accepts hpattern hcandidate
      rw [matchInto_eq hd hp hshape, tree_leaf hplain, captures, hname, matchShape, haccepts]
      rfl
    · rw [matchInto_eq hd hp hshape]
      cases shape
      case definition | facade | instantiation =>
        cases hgeneric
        have hrole : s.roles.nullable ≠ some definition := by
          intro hrole
          obtain ⟨isOpen, hwrapper⟩ := hnullable.mp hrole
          cases hwrapper
        exact holder.matchNearest_eq hs hcandidate hp hdefinition hrole b
      case nullableWrapper isOpen =>
        cases hgeneric
        exact holder.matchShape_nullable_eq hs hd hp hdefinition (hnullable.mpr ⟨_, rfl⟩) isOpen b
      all_goals cases hgeneric

/-- So the bindings of a match are what is captured. -/
theorem matchBindings_eq_captures (hs : s.WellFormed) (hcandidate : candidate < s.size)
    (hpattern : pattern < s.size) : s.matchBindings candidate pattern =
      .ok (if (s.captures (s.tree pattern) candidate).1 then
        some (Bindings.empty.bindAll (s.captures (s.tree pattern) candidate).2) else none) := by
  rw [matchBindings, hs.matchInto_eq_captures hcandidate hpattern]
  rfl

end WellFormed

/-! ## Reachable stores -/

/-- A match of known types has an outcome and captures that do not depend on what has been bound
before. It appends one binding for each variable of the pattern, from left to right, or if it fails,
for the first of them; and it leaves alone what is bound already. So a pattern without variables
binds nothing, and a successful match binds every variable of the pattern. -/
theorem Reachable.matchInto_binds (hs : s.Reachable) (hcandidate : candidate < s.size)
    (hpattern : pattern < s.size) :
    ∃ matched entries,
      (∀ b, s.matchInto candidate pattern b = .ok (matched, b.bindAll entries)) ∧
      entries.map Prod.fst <+: s.variablesIn (s.tree pattern) ∧
      (matched = true → entries.map Prod.fst = s.variablesIn (s.tree pattern)) ∧
      (∀ b : Bindings String TypeId, b.Extends (b.bindAll entries)) ∧
      (s.variablesIn (s.tree pattern) = [] →
        ∀ b, s.matchInto candidate pattern b = .ok (matched, b)) ∧
      (matched = true → ∀ name ∈ s.variablesIn (s.tree pattern), ∃ value,
        ∀ b : Bindings String TypeId, (b.bindAll entries).Binds name value) := by
  obtain ⟨hfront, hall⟩ := s.capturesFit (s.tree pattern) candidate
  have hmatch := hs.coherent.wellFormed.matchInto_eq_captures hcandidate hpattern
  refine ⟨_, _, hmatch, hfront, hall, fun b => b.extends_bindAll _, fun hnil b => ?_, ?_⟩
  · rw [hnil, List.prefix_nil, List.map_eq_nil_iff] at hfront
    rw [hmatch, boundBy, hfront]
    rfl
  · intro hmatched name hname
    rw [← hall hmatched] at hname
    obtain ⟨⟨_, value⟩, hentry, rfl⟩ := List.mem_map.mp hname
    exact ⟨value, fun b => b.binds_bindAll hentry⟩

/-- Pairs, one of which has a pair at its second place, and patterns for pairs. -/
def pairs : Store := empty.afterAll
  [.declare { Declaration.plain .interface "Pair" with parameters := ["K", "V"] },
    .declare (.plain .classType "A"), .readType "Pair<A, Pair<A, A>>",
    .readPattern "Pair<X, A>" ["X"], .readPattern "Pair<X, Y>" ["X", "Y"]]

theorem reachable_pairs : pairs.Reachable := Reachable.empty.afterAll _

/-- `Pair<A, Pair<A, A>>` does not match `Pair<X, A>`, whatever has been bound before. All that is
left is a binding of `X` behind those that were there already. -/
theorem matchInto_pairs :
    pairs.matchInto 5 7 ⟨[("Y", [4]), ("X", [0])]⟩ =
        .ok (false, ⟨[("Y", [4]), ("X", [0, 3])]⟩) ∧
      ∀ b, ∃ b', pairs.matchInto 5 7 b = .ok (false, b') ∧ b.Extends b' := by
  have hfails : pairs.matchInto 5 7 ⟨[("Y", [4]), ("X", [0])]⟩ =
      .ok (false, ⟨[("Y", [4]), ("X", [0, 3])]⟩) := by decide +kernel
  refine ⟨hfails, fun b => ?_⟩
  obtain ⟨matched, entries, hmatch, -, -, hextends, -⟩ :=
    reachable_pairs.matchInto_binds (show 5 < pairs.size by decide +kernel)
      (show 7 < pairs.size by decide +kernel)
  have hmatched : matched = false := by
    have hresult := (hmatch _).symm.trans hfails
    exact congrArg Prod.fst (Except.ok.inj hresult)
  exact ⟨_, hmatched ▸ hmatch b, hextends b⟩

end Store

end NominalTypes
