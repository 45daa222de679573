import Mathlib.Logic.Relation
import Mathlib.Order.WellFounded
import NominalTypes.Proofs.Building.Consistency

/-!
# Arguments of arguments

A generic type has arguments, which may be generic themselves. An instantiation is younger than its
arguments, but a definition is older than its parameters, which are its arguments. So it takes more
than the age to tell that the way down ends: parameters have no arguments.

- `Store.IsArgument`, `Store.LeadsDownTo`: arguments, and what is reached by following them.
- `Store.ArgumentsFirst`: what makes the way down end (`Store.ArgumentsFirst.wellFounded`).
- `Store.WellFormed.mem_leaves_tree_iff`: the leaves of the tree of a type are what it leads down to
  that is not generic.
- `TypeTree.nesting`, `Store.nesting`: how many arguments may follow one another.
-/

namespace NominalTypes

namespace TypeTree

/-- How many arguments follow one another at most, each of them an argument of the one before. -/
def nesting : TypeTree → Nat
  | .leaf _ => 0
  | .node _ args => (args.map nesting).foldr max 0 + 1

theorem nesting_lt {definition : TypeId} {args : List TypeTree} {arg : TypeTree} (h : arg ∈ args) :
    arg.nesting < (node definition args).nesting := by
  rw [nesting]
  refine Nat.lt_succ_of_le ?_
  induction args with
  | nil => cases h
  | cons first rest ih =>
    rw [List.map_cons, List.foldr_cons]
    rcases List.mem_cons.mp h with rfl | hrest
    · exact Nat.le_max_left _ _
    · exact Nat.le_trans (ih hrest) (Nat.le_max_right _ _)

end TypeTree

namespace Store

variable {s t : Store} {type arg inner : TypeId}

/-- The first type is an argument of the second one, or a parameter if that one is a definition. -/
def IsArgument (s : Store) (arg type : TypeId) : Prop :=
  ∃ d, s.get? type = some d ∧ arg ∈ d.arguments

/-- The second type is reached from the first one by following arguments, perhaps none. -/
def LeadsDownTo (s : Store) : TypeId → TypeId → Prop :=
  Relation.ReflTransGen fun type arg => s.IsArgument arg type

/-- How deeply the arguments of a type are nested. -/
def nesting (s : Store) (type : TypeId) : Nat := (s.tree type).nesting

/-! ## The way down -/

/-- Every argument is older than its type or has no arguments itself. -/
def ArgumentsFirst (s : Store) : Prop :=
  ∀ arg type, s.IsArgument arg type → arg < type ∨ ∀ inner, ¬ s.IsArgument inner arg

/-- Following arguments comes to an end. -/
theorem ArgumentsFirst.wellFounded (h : s.ArgumentsFirst) : WellFounded s.IsArgument := by
  refine ⟨fun type => ?_⟩
  induction type using Nat.strongRecOn with
  | ind type ih =>
    refine ⟨type, fun arg harg => ?_⟩
    rcases h arg type harg with hlt | hnone
    · exact ih arg hlt
    · exact ⟨arg, fun inner hinner => absurd hinner (hnone inner)⟩

/-- No type is reached from itself. -/
theorem not_transGen_isArgument (h : WellFounded s.IsArgument) (type : TypeId) :
    ¬ Relation.TransGen s.IsArgument type type :=
  fun hloop => h.transGen.asymmetric _ _ hloop hloop

/-- Only arguments matter. -/
theorem ArgumentsFirst.of_subset (h : s.ArgumentsFirst)
    (hsub : ∀ arg type, t.IsArgument arg type → s.IsArgument arg type) : t.ArgumentsFirst :=
  fun arg type harg => (h arg type (hsub arg type harg)).imp_right
    fun hnone inner hinner => hnone inner (hsub inner arg hinner)

/-- Only generic types have arguments. -/
theorem IsArgument.definitionOf? (h : s.IsArgument arg type) :
    ∃ definition, s.definitionOf? type = some definition := by
  obtain ⟨d, hd, harg⟩ := h
  rw [Store.definitionOf?, hd]
  unfold Descriptor.arguments at harg
  split at harg
  · next horigin => exact ⟨type, by rw [Option.map_some, horigin]⟩
  · next definition _ _ horigin => exact ⟨definition, by rw [Option.map_some, horigin]⟩
  · cases harg

namespace WellFormed

variable (hs : s.WellFormed)

include hs

/-- A generic parameter is not generic itself. -/
theorem definitionOf?_parameter (h : s.isParameter type = true) :
    s.definitionOf? type = none := by
  cases hdefinition : s.definitionOf? type with
  | none => rfl
  | some definition =>
    obtain ⟨d, hd⟩ := exists_get? (lt_of_definitionOf? hdefinition)
    have htree := hs.tree_parameter h
    rw [hs.tree_generic hd hdefinition] at htree
    cases htree

/-- An argument that is not older than the type is a parameter of a definition. -/
theorem isParameter_of_not_lt {d : Descriptor} (hd : s.get? type = some d)
    (harg : arg ∈ d.arguments) (hnot : ¬ arg < type) : s.isParameter arg = true := by
  have ho := origin?_of_get? hd
  unfold Descriptor.arguments at harg
  split at harg
  · next params horigin =>
    rw [horigin] at ho
    exact hs.isParameter_of_mem ho harg
  · next generic args isOpen horigin =>
    rw [horigin] at ho
    exact absurd (hs.args_known ho harg).1 hnot
  · cases harg

theorem argumentsFirst : s.ArgumentsFirst := by
  rintro arg type ⟨d, hd, harg⟩
  by_cases hlt : arg < type
  · exact .inl hlt
  refine .inr fun inner hinner => ?_
  obtain ⟨definition, hdefinition⟩ := hinner.definitionOf?
  rw [hs.definitionOf?_parameter (hs.isParameter_of_not_lt hd harg hlt)] at hdefinition
  cases hdefinition

/-- In a well-formed store the way down ends. -/
theorem wellFounded_isArgument : WellFounded s.IsArgument := hs.argumentsFirst.wellFounded

/-- Arguments are nested less deeply than their type. -/
theorem nesting_lt (h : s.IsArgument arg type) : s.nesting arg < s.nesting type := by
  obtain ⟨definition, hdefinition⟩ := h.definitionOf?
  obtain ⟨d, hd, harg⟩ := h
  rw [nesting, nesting, hs.tree_generic hd hdefinition]
  exact TypeTree.nesting_lt (List.mem_map_of_mem harg)

/-- A leaf of an argument is a leaf of the type. -/
theorem mem_leaves_of_isArgument {leaf : TypeId} (h : s.IsArgument arg type)
    (hleaf : leaf ∈ (s.tree arg).leaves) : leaf ∈ (s.tree type).leaves := by
  obtain ⟨definition, hdefinition⟩ := h.definitionOf?
  obtain ⟨d, hd, harg⟩ := h
  rw [hs.tree_generic hd hdefinition, TypeTree.leaves]
  exact List.mem_flatMap.mpr ⟨s.tree arg, List.mem_map_of_mem harg, hleaf⟩

/-- The leaves of the tree of a type are what it leads down to that is not generic. -/
theorem mem_leaves_tree_iff {leaf : TypeId} :
    leaf ∈ (s.tree type).leaves ↔ s.LeadsDownTo type leaf ∧ s.definitionOf? leaf = none := by
  constructor
  · induction type using hs.wellFounded_isArgument.induction with
    | _ type ih =>
      intro hleaf
      cases hdefinition : s.definitionOf? type with
      | none =>
        rw [tree_leaf hdefinition, TypeTree.leaves, List.mem_singleton] at hleaf
        subst hleaf
        exact ⟨.refl, hdefinition⟩
      | some definition =>
        obtain ⟨d, hd⟩ := exists_get? (lt_of_definitionOf? hdefinition)
        rw [hs.tree_generic hd hdefinition, TypeTree.leaves] at hleaf
        obtain ⟨_, htree, hleaf⟩ := List.mem_flatMap.mp hleaf
        obtain ⟨arg, harg, rfl⟩ := List.mem_map.mp htree
        obtain ⟨hpath, hnone⟩ := ih arg ⟨d, hd, harg⟩ hleaf
        exact ⟨.head ⟨d, hd, harg⟩ hpath, hnone⟩
  · rintro ⟨hpath, hnone⟩
    induction hpath using Relation.ReflTransGen.head_induction_on with
    | refl =>
      rw [tree_leaf hnone, TypeTree.leaves]
      exact List.mem_singleton_self leaf
    | head hstep _ ih => exact hs.mem_leaves_of_isArgument hstep ih

end WellFormed

end Store

end NominalTypes
