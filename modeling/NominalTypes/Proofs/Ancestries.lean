import NominalTypes.Proofs.Building.Reachable
import NominalTypes.Proofs.Hierarchy.Order

/-!
# Ancestries list what is in reach, breadth-first

An ancestry with room for everything above a type is determined by the hierarchy alone: it holds the
types in reach, each with the length of a shortest path, and in an order that tells by which of the
others a type is first met. Cycles do no harm, for no type is entered twice. A type that is looked
for in it is found at the least distance, as the nearer types are listed first.

- `Store.nearestBuiltFrom_eq`: the search for a definition is one through the ancestry.
- `Store.Reachable.ancestry_breadthFirst`: the main result.
-/

namespace NominalTypes.Store

variable {s : Store} {type definition : TypeId}

/-- A type that is built from the definition itself needs no case of its own, as it is the first
member of its ancestry. -/
theorem nearestBuiltFrom_eq {a : Ancestry} (htype : type < s.size)
    (ha : s.ancestry type = .ok a) (definition : TypeId) :
    s.nearestBuiltFrom type definition =
      .ok ((a.members.find? fun member => s.definitionOf? member.1 == some definition).map
        Prod.fst) := by
  obtain ⟨d, hd⟩ := exists_get? htype
  have hmap : a.types.find? (fun ancestor => s.definitionOf? ancestor == some definition) =
      (a.members.find? fun member => s.definitionOf? member.1 == some definition).map Prod.fst :=
    List.find?_map
  by_cases hself : s.definitionOf? type = some definition
  · obtain ⟨others, hmembers⟩ := List.head?_eq_some_iff.mp (head?_members ha)
    rw [nearestBuiltFrom_self hd hself, hmembers, List.find?_cons_of_pos (by simpa using hself)]
    rfl
  · rw [nearestBuiltFrom, descriptor_eq_ok.mpr hd, ha, ← hmap]
    exact if_neg hself

/-- The first member of a kind is a nearest one. -/
theorem BreadthFirst.le_of_find? {members : List (TypeId × Nat)} (h : s.BreadthFirst type members)
    {p : TypeId × Nat → Bool} {nearest : TypeId × Nat} (hfind : members.find? p = some nearest) :
    ∀ member ∈ members, p member = true → nearest.2 ≤ member.2 := by
  obtain ⟨-, before, after, rfl, hbefore⟩ := List.find?_eq_some_iff_append.mp hfind
  intro member hmember hp
  rcases List.mem_append.mp hmember with hearlier | hlater
  · have hnot := hbefore member hearlier
    rw [hp] at hnot
    cases hnot
  rcases List.mem_cons.mp hlater with rfl | hafter
  · exact Nat.le_refl _
  · have hsorted := (List.pairwise_append.mp h.sorted).2.1
    exact (List.pairwise_cons.mp hsorted).1 member hafter

/-- Where an ancestry has room for everything above a type, it is listed breadth-first, in cyclic
hierarchies as well. The type that is found for a definition is a member at the least distance at
which one is built from it, and none is found only if none is. -/
theorem Reachable.ancestry_breadthFirst (hs : s.Reachable) (htype : type < s.size)
    (hfew : {other | s.WidensTo type other}.encard ≤ maxAncestrySize) :
    ∃ a, s.ancestry type = .ok a ∧ s.BreadthFirst type a.members ∧
      ∀ definition, ∃ nearest, s.nearestBuiltFrom type definition = .ok nearest ∧
        (nearest = none ↔ ∀ member ∈ a.members, s.definitionOf? member.1 ≠ some definition) ∧
        ∀ found, nearest = some found → s.definitionOf? found = some definition ∧
          ∃ distance, (found, distance) ∈ a.members ∧ ∀ member ∈ a.members,
            s.definitionOf? member.1 = some definition → distance ≤ member.2 := by
  obtain ⟨a, ha⟩ := hs.coherent.wellFormed.answered_ancestry htype
  have hmembers := breadthFirst_ancestry ha hfew
  refine ⟨a, ha, hmembers, fun definition => ⟨_, nearestBuiltFrom_eq htype ha definition, ?_, ?_⟩⟩
  · rw [Option.map_eq_none_iff, List.find?_eq_none]
    exact forall₂_congr fun member _ => by rw [beq_iff_eq]
  · intro found hfound
    obtain ⟨⟨_, distance⟩, hfind, rfl⟩ := Option.map_eq_some_iff.mp hfound
    refine ⟨by simpa using List.find?_some hfind, distance, List.mem_of_find?_eq_some hfind, ?_⟩
    exact fun member hmember hbuilt =>
      hmembers.le_of_find? hfind member hmember (by simpa using hbuilt)

/-- An interface `Loop` that is its own base interface, an interface `Seq<T>`, the interfaces `Left`
and `Right`, and a class that has both of them, `Right` first. -/
def diamond : Store :=
  Store.empty.afterAll
    [.declare { Declaration.plain .interface "Loop" with interfaces := ["Loop"] },
      .declare { Declaration.plain .interface "Seq" with parameters := ["T"] },
      .declare { Declaration.plain .interface "Left" with interfaces := ["Seq<Loop>", "Loop"] },
      .declare { Declaration.plain .interface "Right" with interfaces := ["Loop"] },
      .declare { Declaration.plain .classType "Both" with interfaces := ["Right", "Left"] }]

theorem reachable_diamond : diamond.Reachable := Reachable.empty.afterAll _

/-- `Loop` is listed in front of `Seq<Loop>`, for `Right` is looked above before `Left`. -/
theorem ancestry_diamond : ∃ a, diamond.ancestry 6 = .ok a ∧
    a.members = [(6, 0), (5, 1), (3, 1), (0, 2), (4, 2)] ∧ diamond.BreadthFirst 6 a.members ∧
    diamond.nearestBuiltFrom 6 1 = .ok (some 4) := by
  have hsize : diamond.size = 7 := by decide +kernel
  have hknown : 6 < diamond.size := by rw [hsize]; decide
  have hfew := reachable_diamond.coherent.wellFormed.encard_widensTo_le hknown
  rw [hsize] at hfew
  obtain ⟨a, ha, hmembers, hnearest⟩ := reachable_diamond.ancestry_breadthFirst hknown
    (hfew.trans (by exact_mod_cast (by decide : 7 ≤ maxAncestrySize)))
  have hlist : (diamond.ancestry 6).map Ancestry.members =
      .ok [(6, 0), (5, 1), (3, 1), (0, 2), (4, 2)] := by
    decide +kernel
  rw [ha] at hlist
  have hlist := Except.ok.inj hlist
  refine ⟨a, ha, hlist, hmembers, ?_⟩
  -- `Seq<Loop>` is the only member that is built from `Seq`
  obtain ⟨nearest, hfound, hnone, hleast⟩ := hnearest 1
  have hbuilt : ∀ member ∈ a.members, diamond.definitionOf? member.1 = some 1 → member.1 = 4 := by
    rw [hlist]
    decide +kernel
  cases nearest with
  | none =>
    have hnot := hnone.mp rfl (4, 2) (by rw [hlist]; decide)
    exact absurd (by decide +kernel) hnot
  | some found =>
    obtain ⟨hdefinition, distance, hmember, -⟩ := hleast found rfl
    have heq : found = 4 := hbuilt (found, distance) hmember hdefinition
    rw [hfound, heq]

end NominalTypes.Store
