import NominalTypes.NamePool
import NominalTypes.Store.Error
import Std.Data.ExtTreeMap

/-!
# Stores of types

A store holds the descriptors of its types, the tables by which types are found, and the types that
have a role of their own. Types are added at the end, and only a failed operation takes away the
types that it has added itself.

- `Store`, `Store.empty`: the record and a store without types.
- `Store.get?`, `Store.descriptor`: the description of a type.
- `Store.rollback`: forgets the youngest types and every entry that mentions one of them.
- `Build`: operations that may change the store and may fail; `Build.atomic` rolls a failed one
  back, `Build.after` is the store that is left in either case.
-/

namespace NominalTypes

/-- Tables whose keys are pairs, in the lexicographic order of the pairs. Tables with the same
entries are equal. -/
abbrev PairMap (α β γ : Type) [Ord α] [Ord β] :=
  Std.ExtTreeMap (α × β) γ (lexOrd : Ord (α × β)).compare

/-- Types, and the tables by which they are found. -/
structure Store where
  /-- Every name the store has met. -/
  names : NamePool
  /-- The descriptor of each type. -/
  types : Array Descriptor
  /-- The declared types of each simple name and arity, in the order of their declaration. They
  differ in their namespaces. -/
  simpleNames : PairMap String Nat (List TypeId)
  /-- The declared type of each qualified name and arity. -/
  qualifiedNames : PairMap String Nat TypeId
  /-- The type that each keyword stands for. -/
  aliases : Std.ExtTreeMap String TypeId
  /-- The first keyword registered for a type, by which the type is shown. -/
  keywords : Std.ExtTreeMap TypeId String
  /-- The type built from each definition and list of arguments. -/
  instantiations : PairMap TypeId (List TypeId) TypeId
  /-- The free parameter of each name. -/
  freeParameters : Std.ExtTreeMap String TypeId
  roles : Roles

namespace Store

/-- A store without types, which knows the common names. -/
def empty : Store where
  names := NamePool.empty.addCommon
  types := #[]
  simpleNames := ∅
  qualifiedNames := ∅
  aliases := ∅
  keywords := ∅
  instantiations := ∅
  freeParameters := ∅
  roles := .none

instance : Inhabited Store := ⟨empty⟩

/-- Number of types. -/
def size (s : Store) : Nat := s.types.size

/-- The store has no types. -/
def isEmpty (s : Store) : Bool := s.types.isEmpty

/-- The descriptor of a type of the store. -/
def get? (s : Store) (type : TypeId) : Option Descriptor := s.types[type]?

/-- The handle belongs to a type of the store. -/
def contains (s : Store) (type : TypeId) : Bool := decide (type < s.size)

/-- The descriptor of a type; a foreign handle is an error. -/
def descriptor (s : Store) (type : TypeId) : Except RelationError Descriptor :=
  match s.get? type with
  | some d => .ok d
  | none => .error (.unknownType type)

/-- The type is the universal root. -/
def isRoot (s : Store) (type : TypeId) : Bool := s.roles.root == some type

/-- The type is an interface of the store. -/
def isInterface (s : Store) (type : TypeId) : Bool := (s.get? type).any Descriptor.isInterface

/-- The type is a generic parameter of the store. -/
def isParameter (s : Store) (type : TypeId) : Bool := (s.get? type).any Descriptor.isParameter

/-- The generic definition of a type: itself for a definition, none for a type that is not
generic. -/
def definitionOf? (s : Store) (type : TypeId) : Option TypeId :=
  match (s.get? type).map Descriptor.origin with
  | some (.definition _) => some type
  | some (.instantiation definition _ _) => some definition
  | _ => none

/-- The keyword by which a type is shown. -/
def keyword? (s : Store) (type : TypeId) : Option String := s.keywords[type]?

/-- The store with one more type, the next handle being its own. -/
def push (s : Store) (d : Descriptor) : Store := { s with types := s.types.push d }

/-- The store with the supertypes of one type filled in. -/
def setSupertypes (s : Store) (type : TypeId) (base : Option TypeId) (interfaces : List TypeId) :
    Store :=
  { s with types := s.types.modify type fun d => { d with base := base, interfaces := interfaces } }

/-- The elements of a list that are older than a mark, and nothing for a list without any. -/
def olderThan (mark : Nat) (types : List TypeId) : Option (List TypeId) :=
  match types.filter (· < mark) with
  | [] => none
  | older => some older

/-- Forgets every type created at or after a mark, with its names, instantiations and keywords. -/
def rollback (s : Store) (mark : Nat) : Store :=
  { s with
    types := s.types.take mark
    simpleNames := s.simpleNames.filterMap fun _ types => olderThan mark types
    qualifiedNames := s.qualifiedNames.filter fun _ type => type < mark
    aliases := s.aliases.filter fun _ type => type < mark
    keywords := s.keywords.filter fun type _ => type < mark
    instantiations := s.instantiations.filter fun (definition, args) type =>
      definition < mark && type < mark && args.all (· < mark)
    freeParameters := s.freeParameters.filter fun _ type => type < mark }

/-! ### What the two changes do to the table of types -/

@[simp] theorem size_push (s : Store) (d : Descriptor) : (s.push d).size = s.size + 1 := by
  simp [push, size]

theorem get?_push (s : Store) (d : Descriptor) (type : TypeId) :
    (s.push d).get? type = if type = s.size then some d else s.get? type := by
  simp only [push, get?, Array.getElem?_push]
  rfl

@[simp] theorem size_setSupertypes (s : Store) (type : TypeId) (base : Option TypeId)
    (interfaces : List TypeId) : (s.setSupertypes type base interfaces).size = s.size := by
  simp [setSupertypes, size]

theorem get?_setSupertypes (s : Store) (type other : TypeId) (base : Option TypeId)
    (interfaces : List TypeId) :
    (s.setSupertypes type base interfaces).get? other =
      if type = other then
        (s.get? other).map fun d => { d with base := base, interfaces := interfaces }
      else s.get? other := by
  simp only [setSupertypes, get?, Array.getElem?_modify]

/-- The known handles are those with a descriptor. -/
theorem contains_iff_get? (s : Store) (type : TypeId) :
    s.contains type = true ↔ ∃ d, s.get? type = some d := by
  rw [contains, decide_eq_true_eq, ← Option.isSome_iff_exists]
  simp [get?, size]

end Store

/-- Operations on a store that may fail. What a failed operation has done so far stays done. -/
abbrev Build := ExceptT StoreError (StateM Store)

namespace Build

/-- The answer to a question about the types of the store. -/
def ask {α : Type} (question : Store → Except RelationError α) : Build α := do
  match question (← get) with
  | .ok answer => pure answer
  | .error error => throw (.relation error)

/-- The operation done as a whole or not at all: if it fails, the types that it has created are
forgotten. -/
def atomic {α : Type} (operation : Build α) : Build α := fun s =>
  match operation.run s with
  | (.ok a, s') => (.ok a, s')
  | (.error error, s') => (.error error, s'.rollback s.size)

/-- The store after an operation, whether it fails or not. -/
def after {α : Type} (operation : Build α) (s : Store) : Store := (operation.run s).2

/-- Meets some names. -/
def meet (names : List String) : Build Unit :=
  modify fun s => { s with names := s.names.addAll names }

end Build

end NominalTypes
