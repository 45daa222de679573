import NominalTypes.Proofs.Pattern.Captures
import NominalTypes.Proofs.Permanence

/-!
# Patterns that differ in their parameters

Two patterns may have the same structure and differ in the parameters at their leaves alone, each in
a store of its own. If both stores have grown from a common one, then a type of the common store
presents the same arguments in both, is accepted by the same types, and so is matched in the same
way: what the parameters capture is the same, under their own names. If the names are renamed one to
one, then so are the variables of the bindings.

- `TypeTree.Related`: trees of the same structure with related leaves.
- `Store.Replaces`: a leaf takes the place of another one.
- `Store.WellFormed.captures_related`: what such patterns capture.
- `Bindings.rename`: bindings under other names.
- `Bindings.bindAll_rename`, `Bindings.get?_rename`, `Bindings.isConsistent_rename`: names that are
  renamed one to one.
-/

namespace NominalTypes

/-! ## Trees of the same structure -/

namespace TypeTree

/-- The trees have the same structure and the same definitions, and their leaves are related. -/
inductive Related (related : TypeId → TypeId → Prop) : TypeTree → TypeTree → Prop
  | leaf {x y : TypeId} (h : related x y) : Related related (.leaf x) (.leaf y)
  | node {definition : TypeId} {trees trees' : List TypeTree}
      (h : List.Forall₂ (Related related) trees trees') :
      Related related (.node definition trees) (.node definition trees')

variable {related related' : TypeId → TypeId → Prop}

/-- A tree is related to itself if its leaves are. -/
theorem related_self : ∀ (tree : TypeTree), (∀ leaf ∈ tree.leaves, related leaf leaf) →
    tree.Related related tree
  | .leaf type, h => .leaf (h type (by rw [leaves]; exact List.mem_singleton_self type))
  | .node definition trees, h => by
    refine .node (List.forall₂_same.mpr fun tree htree => related_self tree fun leaf hleaf => ?_)
    refine h leaf ?_
    rw [leaves]
    exact List.mem_flatMap.mpr ⟨tree, htree, hleaf⟩

mutual

theorem Related.mono (himp : ∀ x y, related x y → related' x y) :
    ∀ {tree tree' : TypeTree}, tree.Related related tree' → tree.Related related' tree'
  | .leaf _, _, .leaf h => .leaf (himp _ _ h)
  | .node _ trees, _, .node h => .node (mono_all himp trees h)

theorem Related.mono_all (himp : ∀ x y, related x y → related' x y) :
    ∀ (trees : List TypeTree) {trees' : List TypeTree},
      List.Forall₂ (Related related) trees trees' → List.Forall₂ (Related related') trees trees'
  | [], _, .nil => .nil
  | _ :: trees, _, .cons hfirst hothers => .cons (hfirst.mono himp) (mono_all himp trees hothers)

end

end TypeTree

/-! ## What patterns of the same structure capture -/

namespace Store

variable {b s t u v : Store} {named : String → String → Prop} {candidate : TypeId}

/-- A leaf of a pattern in the store `t` takes the place of a leaf of a pattern in the store `s`:
both are variables with related names, or both are the same type of the store `b`. -/
inductive Replaces (b s t : Store) (named : String → String → Prop) : TypeId → TypeId → Prop
  | parameter {x y : TypeId} {name name' : String} (left : s.variableName? x = some name)
      (right : t.variableName? y = some name') (h : named name name') : Replaces b s t named x y
  | known {type : TypeId} (known : type < b.size)
      (h : ∀ name, b.variableName? type = some name → named name name) :
      Replaces b s t named type type

theorem KeepsTypes.variableName?_eq (h : s.KeepsTypes t) {type : TypeId} (htype : type < s.size) :
    t.variableName? type = s.variableName? type := by
  rw [variableName?, variableName?, h.get?_eq htype]

theorem lt_of_variableName? {type : TypeId} {name : String} (h : s.variableName? type = some name) :
    type < s.size := by
  by_contra hnot
  rw [variableName?, get?_eq_none hnot] at h
  cases h

theorem KeepsTypes.variableName?_some (h : s.KeepsTypes t) {type : TypeId} {name : String}
    (hname : s.variableName? type = some name) : t.variableName? type = some name :=
  (h.variableName?_eq (lt_of_variableName? hname)).trans hname

/-- Later stores have the same variables. -/
theorem Replaces.later {x y : TypeId} (h : Replaces b s t named x y) (hsu : s.KeepsTypes u)
    (htv : t.KeepsTypes v) : Replaces b u v named x y := by
  cases h with
  | parameter left right h =>
    exact .parameter (hsu.variableName?_some left) (htv.variableName?_some right) h
  | known hlt h => exact .known hlt h

/-- Known types present the same arguments later on. -/
theorem KeepsTypes.presented?_eq (h : s.KeepsTypes t) (hs : s.WellFormed)
    (hcandidate : candidate < s.size) (definition : TypeId) :
    t.presented? candidate definition = s.presented? candidate definition := by
  rw [presented?, presented?, h.roles_eq, h.definitionOf?_eq hcandidate,
    h.nearestBuiltFrom_eq hs hcandidate, kind?, kind?, h.get?_eq hcandidate]
  rcases hnearest : s.nearestBuiltFrom candidate definition with error | _ | found
  · rfl
  · rfl
  · have hfound := (of_nearestBuiltFrom hnearest).2.1
    dsimp only
    rw [h.get?_eq (lt_of_definitionOf? hfound)]

/-- The captures of two patterns: the same types one by one, under related names. -/
def CapturesAlike (named : String → String → Prop) : List (String × TypeId) →
    List (String × TypeId) → Prop :=
  List.Forall₂ fun entry entry' => named entry.1 entry'.1 ∧ entry'.2 = entry.2

/-- The results of two matches: the same outcome, and captures that are alike. -/
def ResultsAlike (named : String → String → Prop) (result result' : Bool × List (String × TypeId)) :
    Prop :=
  result'.1 = result.1 ∧ CapturesAlike named result.2 result'.2

mutual

/-- Patterns of the same structure are matched alike by types of the common store. -/
theorem WellFormed.captures_related (hb : b.WellFormed) (hs : b.KeepsTypes s)
    (ht : b.KeepsTypes t) : ∀ {tree tree' : TypeTree} {candidate : TypeId}, candidate < b.size →
      tree.Related (Replaces b s t named) tree' →
      ResultsAlike named (s.captures tree candidate) (t.captures tree' candidate)
  | .leaf type, _, candidate, hcandidate, .leaf h => by
    cases h with
    | parameter left right h =>
      rw [captures, captures, left, right]
      exact ⟨rfl, .cons ⟨h, rfl⟩ .nil⟩
    | known hlt h =>
      rw [captures, captures, hs.variableName?_eq hlt, ht.variableName?_eq hlt]
      cases hname : b.variableName? type with
      | some name => exact ⟨rfl, .cons ⟨h name hname, rfl⟩ .nil⟩
      | none =>
        dsimp only
        rw [hs.accepts_eq hb hlt hcandidate, ht.accepts_eq hb hlt hcandidate]
        exact ⟨rfl, .nil⟩
  | .node definition trees, .node _ _, candidate, hcandidate, .node h => by
    -- what is presented depends on the candidate alone, which the common store knows
    rw [captures, captures, hs.presented?_eq hb hcandidate, ht.presented?_eq hb hcandidate]
    cases hargs : b.presented? candidate definition with
    | none => exact ⟨rfl, .nil⟩
    | some args =>
      exact WellFormed.capturesAll_related hb hs ht trees
        ((presented?_eq_some_iff.mp hargs).args_lt hb) h

theorem WellFormed.capturesAll_related (hb : b.WellFormed) (hs : b.KeepsTypes s)
    (ht : b.KeepsTypes t) : ∀ (trees : List TypeTree) {trees' : List TypeTree} {args : List TypeId},
      (∀ arg ∈ args, arg < b.size) →
      List.Forall₂ (TypeTree.Related (Replaces b s t named)) trees trees' →
      ResultsAlike named (s.capturesAll trees args) (t.capturesAll trees' args)
  | [], _, [], _, .nil => ⟨rfl, .nil⟩
  | [], _, _ :: _, _, .nil => ⟨rfl, .nil⟩
  | _ :: _, _ :: _, [], _, .cons _ _ => ⟨rfl, .nil⟩
  | tree :: trees, tree' :: trees', arg :: args, hargs, .cons hfirst hothers => by
    obtain ⟨harg, hargs⟩ := List.forall_mem_cons.mp hargs
    have hothers := WellFormed.capturesAll_related hb hs ht trees hargs hothers
    have hfirst := WellFormed.captures_related hb hs ht harg hfirst
    rw [capturesAll, capturesAll]
    revert hfirst
    rcases s.captures tree arg with ⟨matched, found⟩
    rcases t.captures tree' arg with ⟨matched', found'⟩
    rintro ⟨rfl, hfound⟩
    cases matched' with
    | false => exact ⟨rfl, hfound⟩
    | true => exact ⟨hothers.1, List.rel_append hfound hothers.2⟩

end

end Store

/-! ## Bindings under other names -/

namespace Bindings

variable {α β : Type} {f : α → α} {domain : Set α} {b : Bindings α β} {name : α}

/-- The bindings with their variables renamed. -/
def rename (f : α → α) (b : Bindings α β) : Bindings α β :=
  ⟨b.entries.map fun entry => (f entry.1, entry.2)⟩

theorem names_rename (f : α → α) (b : Bindings α β) : (b.rename f).names = b.names.map f := by
  rw [names, rename, List.map_map, names, List.map_map]
  rfl

variable [DecidableEq α]

theorem mem_of_mem_names_bind (hb : ∀ other ∈ b.names, other ∈ domain) (hname : name ∈ domain)
    (value : β) : ∀ other ∈ (b.bind name value).names, other ∈ domain := by
  intro other hother
  rw [names_bind] at hother
  split at hother
  · exact hb other hother
  · rcases List.mem_append.mp hother with hold | hnew
    · exact hb other hold
    · rwa [List.mem_singleton.mp hnew]

/-- The variables are among those that were bound before and those that are bound now. -/
theorem mem_of_mem_names_bindAll {entries : List (α × β)} (hb : ∀ other ∈ b.names, other ∈ domain)
    (hentries : ∀ entry ∈ entries, entry.1 ∈ domain) :
    ∀ other ∈ (b.bindAll entries).names, other ∈ domain := by
  induction entries generalizing b with
  | nil => exact hb
  | cons entry rest ih =>
    obtain ⟨hentry, hrest⟩ := List.forall_mem_cons.mp hentries
    exact ih (mem_of_mem_names_bind hb hentry entry.2) hrest

section OneToOne

variable (hf : Set.InjOn f domain)

include hf

theorem get?_rename (hb : ∀ other ∈ b.names, other ∈ domain) (hname : name ∈ domain) :
    (b.rename f).get? (f name) = b.get? name := by
  obtain ⟨entries⟩ := b
  induction entries with
  | nil => rfl
  | cons entry rest ih =>
    obtain ⟨hentry, hrest⟩ := List.forall_mem_cons.mp hb
    have hrest : (rename f ⟨rest⟩ : Bindings α β).get? (f name) = get? ⟨rest⟩ name := ih hrest
    have hiff : (f name == f entry.1) = (name == entry.1) := by
      rw [Bool.eq_iff_iff, beq_iff_eq, beq_iff_eq]
      exact ⟨fun heq => hf hname hentry heq, congrArg f⟩
    rw [get?, rename, List.map_cons, List.lookup_cons, hiff, get?, List.lookup_cons]
    cases name == entry.1 with
    | true => rfl
    | false => exact hrest

theorem bind_rename (hb : ∀ other ∈ b.names, other ∈ domain) (hname : name ∈ domain) (value : β) :
    (b.rename f).bind (f name) value = (b.bind name value).rename f := by
  obtain ⟨entries⟩ := b
  refine congrArg Bindings.mk ?_
  show bindIn (f name) value (entries.map fun entry => (f entry.1, entry.2)) =
    (bindIn name value entries).map fun entry => (f entry.1, entry.2)
  induction entries with
  | nil => rfl
  | cons entry rest ih =>
    obtain ⟨hentry, hrest⟩ := List.forall_mem_cons.mp hb
    rw [List.map_cons, bindIn, bindIn, ih hrest]
    by_cases heq : entry.1 = name
    · rw [if_pos heq, if_pos (congrArg f heq)]
      rfl
    · rw [if_neg heq, if_neg (mt (hf hentry hname) heq)]
      rfl

/-- Binding renamed variables gives the renamed bindings. -/
theorem bindAll_rename {entries : List (α × β)} (hb : ∀ other ∈ b.names, other ∈ domain)
    (hentries : ∀ entry ∈ entries, entry.1 ∈ domain) :
    (b.rename f).bindAll (entries.map fun entry => (f entry.1, entry.2)) =
      (b.bindAll entries).rename f := by
  induction entries generalizing b with
  | nil => rfl
  | cons entry rest ih =>
    obtain ⟨hentry, hrest⟩ := List.forall_mem_cons.mp hentries
    rw [List.map_cons, bindAll_cons, bindAll_cons, bind_rename hf hb hentry,
      ih (mem_of_mem_names_bind hb hentry entry.2) hrest]

/-- The occurrences of a variable agree if they do under the other name. -/
theorem isConsistent_rename [DecidableEq β] (hb : ∀ other ∈ b.names, other ∈ domain) :
    (b.rename f).isConsistent = b.isConsistent := by
  rw [isConsistent, isConsistent, names_rename, List.all_map, Bool.eq_iff_iff, List.all_eq_true,
    List.all_eq_true]
  refine forall₂_congr fun name hname => ?_
  rw [Function.comp_apply, unique?, get?_rename hf hb (hb name hname), unique?]

end OneToOne

end Bindings

end NominalTypes
