import Std.Data.TreeMap

/-!
# Pools of names

Every name that a store has met is kept once, under a number of its own (its *atom*), in the order
of the first meeting. Atom `0` is the empty name.

- `NamePool.empty`: the pool that knows the empty name only.
- `NamePool.intern`: the atom of a name, a new one if the name is new.
- `NamePool.find?`, `NamePool.text?`: from a name to its atom and back, without changing the pool.
- `NamePool.addCommon`: meets the names that nearly every collection of types uses.
-/

namespace NominalTypes

/-- The number of a name in a pool. -/
abbrev Atom := Nat

/-- The atom of the empty name, which stands for "no name". -/
def Atom.isNone (atom : Atom) : Bool := atom == 0

/-- Names in the order of their first meeting, and the way back from a name to its place. -/
structure NamePool where
  /-- The name of each atom. -/
  texts : Array String
  /-- The atom of each name. -/
  atoms : Std.TreeMap String Atom

namespace NamePool

/-- The pool that knows the empty name only. -/
def empty : NamePool := ⟨#[""], (∅ : Std.TreeMap String Atom).insert "" 0⟩

instance : Inhabited NamePool := ⟨empty⟩

/-- Number of names in the pool. -/
def size (pool : NamePool) : Nat := pool.texts.size

/-- Nothing but the empty name is known. -/
def isEmpty (pool : NamePool) : Bool := pool.size ≤ 1

/-- The atom of a name that the pool knows. -/
def find? (pool : NamePool) (name : String) : Option Atom := pool.atoms[name]?

/-- The name of an atom that the pool has given out. -/
def text? (pool : NamePool) (atom : Atom) : Option String := pool.texts[atom]?

/-- The name of an atom; one that was never given out reads as the empty name. -/
def text (pool : NamePool) (atom : Atom) : String := (pool.text? atom).getD ""

/-- The atom of a name and the pool that knows it: a new name gets the next free atom. -/
def intern (pool : NamePool) (name : String) : Atom × NamePool :=
  match pool.find? name with
  | some atom => (atom, pool)
  | none => (pool.size, ⟨pool.texts.push name, pool.atoms.insert name pool.size⟩)

/-- The pool after meeting one name. -/
def add (pool : NamePool) (name : String) : NamePool := (pool.intern name).2

/-- The pool after meeting several names, from left to right. -/
def addAll (pool : NamePool) (names : List String) : NamePool := names.foldl add pool

/-- The names of the core namespaces and types, the keyword aliases and the conventional names of
parameters, in the order in which a new store meets them. -/
def commonNames : List String :=
  ["System", "System.Collections", "System.Collections.Generic", "System.Linq",
   "System.ComponentModel", "Object", "ValueType", "Nullable", "String", "Int32", "Int64",
   "Boolean", "Double", "object", "string", "int", "long", "bool", "double", "T", "TKey", "TValue",
   "TSource", "TResult"]

/-- The pool after meeting the common names. -/
def addCommon (pool : NamePool) : NamePool := pool.addAll commonNames

end NamePool

end NominalTypes
