import NominalTypes.Store.Declare

/-!
# The core library

The types that every collection of types builds on: the universal root, the base of value types, the
nullable wrapper, primitive types with their keywords, and the collection interfaces.

- `CoreLibrary.installBy`, `CoreLibrary.install`: declares them in a store.
- `Store.core`: the store that holds them and nothing else.
-/

namespace NominalTypes

namespace CoreLibrary

/-- A declaration in a namespace, with parameters and interfaces. -/
def entry (kind : Kind) (qualifier name : String) (parameters interfaces : List String) :
    Declaration :=
  { Declaration.plain kind name with
    qualifier := some qualifier, parameters := parameters, interfaces := interfaces }

/-- The universal root. -/
def object : Declaration := entry .classType "System" "Object" [] []

/-- The base of value types. -/
def valueType : Declaration :=
  { entry .classType "System" "ValueType" [] [] with isAbstract := true }

/-- Comparisons and collections. -/
def contracts : List Declaration :=
  [entry .interface "System" "IDisposable" [] [],
   entry .interface "System" "IComparable" [] [],
   entry .interface "System" "IComparable" ["T"] [],
   entry .interface "System" "IEquatable" ["T"] [],
   entry .interface "System.Collections" "IEnumerable" [] [],
   entry .interface "System.Collections" "ICollection" [] ["IEnumerable"],
   entry .interface "System.Collections" "IList" [] ["ICollection"],
   entry .interface "System.Collections.Generic" "IEnumerable" ["T"]
     ["System.Collections.IEnumerable"],
   entry .interface "System.Collections.Generic" "ICollection" ["T"] ["IEnumerable<T>"],
   entry .interface "System.Collections.Generic" "IList" ["T"] ["ICollection<T>"],
   entry .interface "System.Collections.Generic" "IReadOnlyCollection" ["T"] ["IEnumerable<T>"],
   entry .interface "System.Collections.Generic" "IReadOnlyList" ["T"] ["IReadOnlyCollection<T>"],
   entry .valueType "System.Collections.Generic" "KeyValuePair" ["TKey", "TValue"] [],
   entry .interface "System.Collections.Generic" "IDictionary" ["TKey", "TValue"]
     ["ICollection<KeyValuePair<TKey, TValue>>"],
   entry .interface "System.Collections.Generic" "IReadOnlyDictionary" ["TKey", "TValue"]
     ["IReadOnlyCollection<KeyValuePair<TKey, TValue>>"],
   entry .classType "System.Collections.Generic" "List" ["T"]
     ["IList<T>", "IReadOnlyList<T>", "IList"],
   entry .classType "System.Collections.Generic" "Dictionary" ["TKey", "TValue"]
     ["IDictionary<TKey, TValue>", "IReadOnlyDictionary<TKey, TValue>"],
   entry .interface "System.Linq" "IQueryable" [] ["IEnumerable"],
   entry .interface "System.Linq" "IQueryable" ["T"] ["IEnumerable<T>", "IQueryable"],
   { entry .classType "System.Linq" "Enumerable" [] [] with isStatic := true }]

/-- The nullable wrapper. -/
def nullable : Declaration := entry .valueType "System" "Nullable" ["T"] []

/-- A primitive value type, which can be compared with itself. -/
def primitive (name : String) : Declaration :=
  entry .valueType "System" name []
    ["IComparable", "IComparable<" ++ name ++ ">", "IEquatable<" ++ name ++ ">"]

/-- The primitive value types and their keywords. -/
def primitives : List (String × String) :=
  [("Int32", "int"), ("Int64", "long"), ("Double", "double"), ("Boolean", "bool"),
   ("Char", "char")]

/-- Texts. -/
def string : Declaration :=
  { entry .classType "System" "String" []
      ["IEnumerable<char>", "IComparable", "IComparable<String>", "IEquatable<String>"] with
    isSealed := true }

/-- Components. -/
def components : List Declaration :=
  [{ entry .classType "System" "MarshalByRefObject" [] [] with isAbstract := true },
   entry .interface "System.ComponentModel" "IComponent" [] ["IDisposable"],
   { entry .classType "System.ComponentModel" "Component" [] ["IComponent"] with
     base := some "MarshalByRefObject" }]

section Install

variable (declare : Declaration → Build TypeId)

/-- Declares a type and registers a keyword for it. -/
def declareAs (keyword : String) (d : Declaration) : Build Unit := do
  let type ← declare d
  Store.addAlias keyword type

/-- Declares several types. -/
def declareAll (declarations : List Declaration) : Build Unit :=
  declarations.forM fun d => do
    let _ ← declare d

/-- Declares the types of the core library, each by the given operation, and gives them their roles
and keywords. -/
def installBy : Build Unit := do
  let root ← declare object
  Store.giveRole .root root
  Store.addAlias "object" root
  let base ← declare valueType
  Store.giveRole .valueTypeRoot base
  declareAll declare contracts
  let wrapper ← declare nullable
  Store.giveRole .nullable wrapper
  primitives.forM fun (name, keyword) => declareAs declare keyword (primitive name)
  declareAs declare "string" string
  declareAll declare components

end Install

/-- Declares the core library in a store. -/
def install (order : ScanOrder) : Build Unit := installBy fun d => Store.declare d order

end CoreLibrary

/-- The store that holds the core library and nothing else. -/
def Store.core (order : ScanOrder := .oldestFirst) : Store :=
  (CoreLibrary.install order).after Store.empty

end NominalTypes
