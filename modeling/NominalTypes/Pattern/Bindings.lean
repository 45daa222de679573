/-!
# Bindings of pattern variables

A variable that occurs several times in a pattern is bound once for each occurrence; whether the
occurrences agree is left to the caller.

- `Bindings`: variables with the types bound to them, in the order of binding.
- `Bindings.bind`, `Bindings.get?`, `Bindings.unique?`, `Bindings.isConsistent`.
- `Bindings.get?_bind_self`, `Bindings.get?_bind_of_ne`: what a binding changes and what it does not.
-/

namespace NominalTypes

/-- Variables in the order of their first binding, each with everything bound to it. -/
structure Bindings (α β : Type) where
  entries : List (α × List β)
  deriving DecidableEq, Repr

namespace Bindings

variable {α β : Type}

/-- No variable is bound. -/
def empty : Bindings α β := ⟨[]⟩

instance : Inhabited (Bindings α β) := ⟨empty⟩

/-- Number of bound variables. -/
def size (b : Bindings α β) : Nat := b.entries.length

/-- No variable is bound. -/
def isEmpty (b : Bindings α β) : Bool := b.entries.isEmpty

/-- The bound variables. -/
def names (b : Bindings α β) : List α := b.entries.map Prod.fst

variable [DecidableEq α]

/-- Appends to what a variable is bound to, in a list of variables with distinct names. -/
def bindIn (name : α) (value : β) : List (α × List β) → List (α × List β)
  | [] => [(name, [value])]
  | (other, values) :: rest =>
    if other = name then (other, values ++ [value]) :: rest
    else (other, values) :: bindIn name value rest

/-- Binds a variable to one more value. -/
def bind (b : Bindings α β) (name : α) (value : β) : Bindings α β :=
  ⟨bindIn name value b.entries⟩

/-- Everything a variable is bound to, in order. -/
def get? (b : Bindings α β) (name : α) : Option (List β) := b.entries.lookup name

theorem lookup_bindIn_self (name : α) (value : β) (entries : List (α × List β)) :
    (bindIn name value entries).lookup name = some ((entries.lookup name).getD [] ++ [value]) := by
  induction entries with
  | nil => simp [bindIn]
  | cons entry rest ih =>
    obtain ⟨other, values⟩ := entry
    by_cases h : other = name
    · simp [bindIn, h]
    · simp [bindIn, h, List.lookup_cons, beq_false_of_ne (Ne.symm h), ih]

theorem lookup_bindIn_of_ne {name other : α} (h : other ≠ name) (value : β)
    (entries : List (α × List β)) :
    (bindIn name value entries).lookup other = entries.lookup other := by
  induction entries with
  | nil => simp [bindIn, List.lookup_cons, beq_false_of_ne h]
  | cons entry rest ih =>
    obtain ⟨first, values⟩ := entry
    by_cases h' : first = name
    · simp [bindIn, h', List.lookup_cons, beq_false_of_ne h]
    · simp [bindIn, h', List.lookup_cons, ih]

/-- Binding a variable appends one value to what it is bound to. -/
theorem get?_bind_self (b : Bindings α β) (name : α) (value : β) :
    (b.bind name value).get? name = some ((b.get? name).getD [] ++ [value]) :=
  lookup_bindIn_self name value b.entries

/-- Binding a variable leaves every other variable alone. -/
theorem get?_bind_of_ne (b : Bindings α β) {name other : α} (h : other ≠ name) (value : β) :
    (b.bind name value).get? other = b.get? other :=
  lookup_bindIn_of_ne h value b.entries

/-- The first value a variable was bound to. -/
def first? (b : Bindings α β) (name : α) : Option β := (b.get? name).bind List.head?

variable [DecidableEq β]

/-- The value that all occurrences of a variable agree on. -/
def unique? (b : Bindings α β) (name : α) : Option β :=
  match b.get? name with
  | some (first :: rest) => if rest.all (· == first) then some first else none
  | _ => none

/-- All occurrences of each variable agree. -/
def isConsistent (b : Bindings α β) : Bool := b.names.all fun name => (b.unique? name).isSome

end Bindings

end NominalTypes
