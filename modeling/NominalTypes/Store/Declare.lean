import NominalTypes.Store.Resolve

/-!
# Declaring types

- `Store.declare`: adds a declared type with its parameters and resolves its supertypes. The name is
  known while they are resolved, so that a type may mention itself. A failed declaration leaves the
  store as it was, but for the names it has met.
- `ScanOrder`: the order in which it goes through the instantiations of the new type.
- `Store.addAlias`: registers a keyword for a type.
- `Store.giveRole`: gives a type a role.
-/

namespace NominalTypes

/-- An order in which some of the instantiations of a store are gone through. They are kept in a
table without an order of its own, so any will do. -/
structure ScanOrder where
  arrange : Store → List TypeId → List TypeId
  perm : ∀ s types, (arrange s types).Perm types

namespace ScanOrder

/-- The order in which the types have been created. -/
def oldestFirst : ScanOrder := ⟨fun _ types => types, fun _ types => .refl types⟩

@[simp] theorem mem_arrange (order : ScanOrder) (s : Store) (types : List TypeId) (type : TypeId) :
    type ∈ order.arrange s types ↔ type ∈ types := (order.perm s types).mem_iff

@[simp] theorem arrange_nil (order : ScanOrder) (s : Store) : order.arrange s [] = [] :=
  (order.perm s []).eq_nil

end ScanOrder

namespace Store

/-- Refuses a type, shown by its present label. -/
def refuse {α : Type} (type : TypeId) (fault : DeclarationFault) : Build α := do
  throw (.invalidDeclaration ((← get).display type) fault)

/-- Adds the descriptor of a declared type and those of its parameters, and enters its names. -/
def enter (s : Store) (d : Declaration) : Store :=
  let type := s.size
  let arity := d.parameters.length
  let params := List.range' (type + 1) arity
  let origin := if arity = 0 then .declared else .definition params
  let own := Descriptor.bare d.name d.effectiveQualifier d.kind d.modifiers origin
  let parameters := d.parameters.mapIdx fun position name =>
    Descriptor.parameter name (.typeParameter type position)
  let sameName := (s.simpleNames[(d.name, arity)]?).getD []
  { s with
    types := s.types.push own ++ parameters
    simpleNames := s.simpleNames.insert (d.name, arity) (sameName ++ [type])
    qualifiedNames := s.qualifiedNames.insert (d.qualifiedName, arity) type }

/-- The base type that a declaration names, which must be a class that is not sealed. -/
def namedBase (type : TypeId) (scope : Scope) (text : String) : Build TypeId := do
  let base ← readTypeIn scope text
  let described ← Build.ask (·.descriptor base)
  if !described.isClass then refuse type .baseNotClass
  else if described.modifiers.isSealed then refuse type .baseSealed
  else pure base

/-- The base type of a type whose declaration names none. -/
def impliedBase (s : Store) (type : TypeId) : Kind → Option TypeId
  | .classType => s.roles.root.filter (· != type)
  | .valueType => s.roles.valueTypeRoot
  | .interface | .parameter => none

/-- The base type of a declaration. -/
def declaredBase (type : TypeId) (scope : Scope) (d : Declaration) : Build (Option TypeId) :=
  match d.base with
  | some text => do
    let base ← namedBase type scope text
    pure (some base)
  | none => do pure ((← get).impliedBase type d.kind)

/-- An interface of a declaration. -/
def declaredInterface (type : TypeId) (scope : Scope) (text : String) : Build TypeId := do
  let interface ← readTypeIn scope text
  let described ← Build.ask (·.descriptor interface)
  if described.isInterface then pure interface
  else refuse type (.notInterface ((← get).display interface))

/-- The instantiations of a definition, oldest first. All are younger than the definition. -/
def instantiationsOf (s : Store) (definition : TypeId) : List TypeId :=
  (List.range' definition (s.size - definition)).filter fun type =>
    match (s.get? type).map Descriptor.origin with
    | some (.instantiation generic _ _) => generic == definition
    | _ => false

/-- Resolves the supertypes of a type that has been entered. Its own instantiations that came up
meanwhile do not have theirs yet and get them now, in any order. -/
def resolveSupertypes (order : ScanOrder) (type : TypeId) (d : Declaration) : Build Unit := do
  let scope := d.parameters.zip (List.range' (type + 1) d.parameters.length)
  let base ← declaredBase type scope d
  let interfaces ← d.interfaces.mapM (declaredInterface type scope)
  modify fun s => s.setSupertypes type base interfaces.eraseDups
  let s ← get
  (order.arrange s (s.instantiationsOf type)).forM
    (substituteSupertypes (instantiateWithin maxInstantiationDepth) type)

/-- Adds a type whose declaration is in order and whose name is free. -/
def introduce (order : ScanOrder) (d : Declaration) : Build TypeId := Build.atomic do
  let s ← get
  set (s.enter d)
  resolveSupertypes order s.size d
  pure s.size

/-- Declares a type. -/
def declare (d : Declaration) (order : ScanOrder := .oldestFirst) : Build TypeId :=
  match d.fault? with
  | some fault => throw (.invalidDeclaration d.qualifiedName fault)
  | none => do
    Build.meet [d.name, d.qualifiedName]
    if (← get).qualifiedNames.contains (d.qualifiedName, d.parameters.length) then
      throw (.duplicateType d.qualifiedName)
    else do
      Build.meet (d.effectiveQualifier.toList ++ d.parameters)
      introduce order d

/-- Registers a keyword, which must be new. A type is shown by the first keyword it got. -/
def addAlias (keyword : String) (type : TypeId) : Build Unit := do
  let _ ← Build.ask (·.descriptor type)
  Build.meet [keyword]
  let s ← get
  if s.aliases.contains keyword then throw (.duplicateType keyword)
  else set { s with
    aliases := s.aliases.insert keyword type
    keywords := s.keywords.insertIfNew type keyword }

/-- Gives a type a role that it is fit for. -/
def giveRole (role : Role) (type : TypeId) : Build Unit := do
  let d ← Build.ask (·.descriptor type)
  if role.admits d then modify fun s => { s with roles := s.roles.give type role }
  else refuse type (.unfit role)

end Store

end NominalTypes
