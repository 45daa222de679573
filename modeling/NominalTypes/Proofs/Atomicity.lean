import NominalTypes.Proofs.Building.Reachable

/-!
# Failed operations

An operation that is done as a whole either succeeds or leaves the store as it was. By the time it
fails it may have added types, names and instantiations, and inner operations may have undone theirs
already; since everything that it has entered mentions one of its own types, forgetting these undoes
it all (`Store.Grows.rollback`).

- `Store.Reachable.unchanged_of_error`: every table of the store is what it was, and the names that
  have been met keep their atoms.
-/

namespace NominalTypes.Store

variable {s t : Store}

/-- An atomic operation that fails leaves every part of the store as it was but the names, and every
old atom stands for the same name. -/
theorem Reachable.unchanged_of_error (hs : s.Reachable) {operation : Operation}
    (hatomic : operation.isAtomic = true) {error : StoreError}
    (hrun : operation.perform s = (.error error, t)) :
    t = { s with names := t.names } ∧
      ∀ atom text, s.names.text? atom = some text → t.names.text? atom = some text := by
  have hends := operation.perform_ends_of_isAtomic hs.coherent hatomic
  have hunchanged : s.UnchangedButNames t := hends.of_error hrun
  exact ⟨hunchanged.eq, hunchanged.names⟩

/-- A declaration whose second interface is missing, after its own type, its parameter and an
instantiation of it have been entered. -/
def unfinished : Declaration :=
  { Declaration.plain .interface "I" with
    parameters := ["T"], interfaces := ["I<I<T>>", "Missing"] }

/-- The declaration fails, and leaves the empty store empty. -/
theorem unchanged_of_unfinished :
    ((Operation.declare unfinished).perform .empty).1 = .error (.unknownTypeName "Missing") ∧
      (Operation.declare unfinished).perform.after .empty =
        { Store.empty with
          names := ((Operation.declare unfinished).perform.after .empty).names } := by
  have herror : ((Operation.declare unfinished).perform .empty).1 =
      .error (.unknownTypeName "Missing") := by decide +kernel
  have hrun : (Operation.declare unfinished).perform .empty =
      (.error (.unknownTypeName "Missing"),
        (Operation.declare unfinished).perform.after .empty) := Prod.ext herror rfl
  exact ⟨herror, (Reachable.empty.unchanged_of_error rfl hrun).1⟩

end NominalTypes.Store
