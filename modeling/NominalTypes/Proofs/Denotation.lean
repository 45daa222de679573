import NominalTypes.Proofs.Building.Introduced
import NominalTypes.Proofs.Identity
import NominalTypes.Proofs.Pattern.Reading

/-!
# What expressions denote

Reading an expression may build instantiations, one for each application in it that is not there
yet. What the expression denotes is settled before the first of them is built: the names in it are
those that the store finds, and each application is a node over what its arguments denote.

- `Store.Yields`: the tree that an expression denotes.
- `Store.resolveIn_yields`: the type as which an expression is read has this tree.
- `Store.ReadBetween.yields`: so has the type as which a text is read later on.
- `Store.Yields.leaves_eq`: the leaves of the tree are those of what the names denote.
-/

namespace NominalTypes

theorem Descriptor.exists_of_isDefinition {d : Descriptor} (h : d.isDefinition = true) :
    ∃ params, d.origin = .definition params := by
  unfold isDefinition at h
  split at h
  · next params ho => exact ⟨params, ho⟩
  · cases h

namespace Store

open Build (Ends ends_pure ends_throw ends_get)

variable {b s t u : Store} {scope : Scope} {expr : TypeExpr} {tree : TypeTree}
  {type definition : TypeId} {args : List TypeId} {text : String}

/-- The tree that an expression denotes. Only names without arguments are looked up in scope, and
an application has the tree of its definition over those of its arguments. -/
inductive Yields (s : Store) (scope : Scope) : TypeExpr → TypeTree → Prop
  | inScope {name : String} {param : TypeId} (hscope : scope.lookup name = some param) :
      Yields s scope (.named name []) (s.tree param)
  | found {name : String} {type : TypeId} (hscope : scope.lookup name = none)
      (hlookup : s.lookup name 0 = .ok type) : Yields s scope (.named name []) (s.tree type)
  | applied {name : String} {arg : TypeExpr} {rest : List TypeExpr} {definition : TypeId}
      {trees : List TypeTree} (hlookup : s.lookup name (rest.length + 1) = .ok definition)
      (hargs : List.Forall₂ (Yields s scope) (arg :: rest) trees) :
      Yields s scope (.named name (arg :: rest)) (.node definition trees)
  | blanks {name : String} {arity : Nat} {definition : TypeId} {params : List TypeId}
      (hlookup : s.lookup name arity = .ok definition)
      (ho : s.origin? definition = some (.definition params)) :
      Yields s scope (.blanks name arity) (s.tree definition)
  | nullable {inner : TypeExpr} {definition : TypeId} {tree : TypeTree}
      (hrole : s.roles.nullable = some definition) (hinner : Yields s scope inner tree) :
      Yields s scope (.nullable inner) (.node definition [tree])

/-! ## Reading what is denoted -/

/-- In a later store, a known type has the tree that the expression denotes. -/
def ReadsAs (b : Store) (scope : Scope) (t : Store) (expr : TypeExpr) (type : TypeId) : Prop :=
  type < t.size ∧ b.Yields scope expr (t.tree type)

theorem ReadsAs.later (h : b.ReadsAs scope t expr type) (ht : t.WellFormed)
    (htu : t.KeepsOutlines u) : b.ReadsAs scope u expr type := by
  refine ⟨Nat.lt_of_lt_of_le h.1 htu.size_le, ?_⟩
  rw [htu.tree_eq ht h.1]
  exact h.2

/-- A type that the common store knows reads as what it is there. -/
theorem FindsSame.readsAs (h : b.FindsSame s) (hb : b.WellFormed) (htype : type < b.size)
    (hyields : b.Yields scope expr (b.tree type)) : b.ReadsAs scope s expr type := by
  refine ⟨Nat.lt_of_lt_of_le htype h.grows.size_le, ?_⟩
  rw [h.grows.keepsOutlines.tree_eq hb htype]
  exact hyields

/-- A name is found where it was found before. -/
theorem FindsSame.find_ends (h : b.FindsSame s) (name : String) (arity : Nat) :
    (find name arity).Ends s (fun type t => t = s ∧ b.lookup name arity = .ok type)
      fun _ => True := by
  refine Ends.bind (ends_get ?_)
  split
  · next type htype => exact ends_pure ⟨rfl, h.lookup_eq_ok_iff.mp htype⟩
  · exact ends_throw trivial

mutual

/-- An expression is read as what it denotes, in every store that has grown from one that finds the
same types. -/
theorem resolveIn_yields (hb : b.WellFormed) (hscope : ∀ entry ∈ scope, entry.2 < b.size) :
    ∀ (expr : TypeExpr) {s : Store}, s.Coherent → b.FindsSame s →
      (resolveIn scope expr).Ends s
        (fun type t => t.Coherent ∧ b.FindsSame t ∧ b.ReadsAs scope t expr type) fun _ => True
  | .named name [], s, hs, hbs => by
    rw [resolveIn]
    split
    · next param hparam =>
      obtain ⟨l₁, l₂, heq, -⟩ := List.lookup_eq_some_iff.mp hparam
      have hlt : param < b.size := hscope (name, param) (heq ▸ by simp)
      exact ends_pure ⟨hs, hbs, hbs.readsAs hb hlt (.inScope hparam)⟩
    · next hnone =>
      refine (hbs.find_ends name 0).mono ?_ fun _ => id
      rintro type t ⟨rfl, hlookup⟩
      exact ⟨hs, hbs, hbs.readsAs hb (lookup_lt hb.closed hlookup) (.found hnone hlookup)⟩
  | .named name (arg :: rest), s, hs, hbs => by
    rw [resolveIn]
    refine Ends.bind ((hbs.find_ends name _).mono ?_ fun _ => id)
    rintro definition t ⟨rfl, hlookup⟩
    refine Ends.bind ((resolveIn_yields hb hscope arg hs hbs).mono ?_ fun _ => id)
    rintro first u ⟨hu, hbu, hfirst⟩
    refine Ends.bind (((resolveAllIn_yields hb hscope rest hu hbu).and
      (OnlyBuilds.findsSame (.resolveAllIn rest) hu)).mono ?_ fun _ _ => trivial)
    rintro others v ⟨⟨hv, hbv, hothers⟩, -, huv⟩
    refine ((instantiate_ends hv).and (OnlyBuilds.findsSame (.instantiate _ _) hv)).mono ?_
      fun _ _ => trivial
    rintro type w ⟨hw, -, hvw⟩
    have hall : List.Forall₂ (b.ReadsAs scope v) (arg :: rest) (first :: others) :=
      .cons (hfirst.later hu.wellFormed huv.grows.keepsOutlines) hothers
    have htrees : List.Forall₂ (b.Yields scope) (arg :: rest) ((first :: others).map w.tree) :=
      List.forall₂_map_right_iff.mpr (hall.imp fun _ _ h =>
        (h.later hv.wellFormed hvw.grows.keepsOutlines).2)
    exact ⟨hw.consistent, hbv.trans hvw, hw.known, hw.tree_eq ▸ .applied hlookup htrees⟩
  | .blanks name arity, s, hs, hbs => by
    rw [resolveIn]
    refine Ends.bind ((hbs.find_ends name arity).mono ?_ fun _ => id)
    rintro definition t ⟨rfl, hlookup⟩
    refine Ends.bind (ends_descriptor (fun e he => ?_) trivial)
    split
    · next hdefinition =>
      have hlt := lookup_lt hb.closed hlookup
      obtain ⟨params, hparams⟩ := Descriptor.exists_of_isDefinition hdefinition
      have ho : b.origin? definition = some (.definition params) := by
        rw [← hbs.grows.keepsOutlines.origin?_eq hlt, origin?_of_get? he, hparams]
      exact ends_pure ⟨hs, hbs, hbs.readsAs hb hlt (.blanks hlookup ho)⟩
    · exact ends_throw trivial
  | .nullable inner, s, hs, hbs => by
    rw [resolveIn]
    refine Ends.bind ((resolveIn_yields hb hscope inner hs hbs).mono ?_ fun _ => id)
    rintro type t ⟨ht, hbt, htype⟩
    refine ((nullableForm_ends ht).and (OnlyBuilds.findsSame (.nullableForm _) ht)).mono ?_
      fun _ _ => trivial
    rintro result u ⟨⟨nullable, hrole, hu⟩, -, htu⟩
    rw [hbt.grows.roles_eq] at hrole
    have hinner := (htype.later ht.wellFormed htu.grows.keepsOutlines).2
    exact ⟨hu.consistent, hbt.trans htu, hu.known, hu.tree_eq ▸ .nullable hrole hinner⟩

/-- So are several expressions, one after the other. -/
theorem resolveAllIn_yields (hb : b.WellFormed) (hscope : ∀ entry ∈ scope, entry.2 < b.size) :
    ∀ (exprs : List TypeExpr) {s : Store}, s.Coherent → b.FindsSame s →
      (resolveAllIn scope exprs).Ends s
        (fun types t => t.Coherent ∧ b.FindsSame t ∧ List.Forall₂ (b.ReadsAs scope t) exprs types)
        fun _ => True
  | [], s, hs, hbs => by
    rw [resolveAllIn]
    exact ends_pure ⟨hs, hbs, .nil⟩
  | expr :: exprs, s, hs, hbs => by
    rw [resolveAllIn]
    refine Ends.bind ((resolveIn_yields hb hscope expr hs hbs).mono ?_ fun _ => id)
    rintro type t ⟨ht, hbt, htype⟩
    refine Ends.bind (((resolveAllIn_yields hb hscope exprs ht hbt).and
      (OnlyBuilds.findsSame (.resolveAllIn exprs) ht)).mono ?_ fun _ _ => trivial)
    rintro types u ⟨⟨hu, hbu, htypes⟩, -, htu⟩
    exact ends_pure ⟨hu, hbu, .cons (htype.later ht.wellFormed htu.grows.keepsOutlines) htypes⟩

end

/-- A text that has been read is read as what it denoted at first. -/
theorem ReadBetween.yields (h : ReadBetween scope s t text type) (hs : s.Coherent)
    (hscope : ∀ entry ∈ scope, entry.2 < s.size) :
    ∃ expr, TypeExpr.parse text = .ok expr ∧ s.ReadsAs scope t expr type := by
  obtain ⟨u, v, hsu, hnaming, hread, hvt⟩ := h
  obtain ⟨expr, hparse, hresolve⟩ := exists_of_readTypeIn hread
  have hfinds : s.FindsSame u := ⟨hsu.builds.grows, hnaming.simpleNames, hnaming.qualifiedNames,
    hnaming.aliases⟩
  obtain ⟨hv, -, hreads⟩ := (resolveIn_yields hs.wellFormed hscope expr hsu.consistent
    hfinds).of_ok hresolve
  exact ⟨expr, hparse, hreads.later hv.wellFormed hvt⟩

/-- The names in scope of an entered declaration are its parameters. -/
theorem Introduces.yields {d : Declaration} {met : Store} {base : Option TypeId}
    {interfaces : List TypeId} (h : s.Introduces d met t base interfaces) (hs : s.Coherent)
    (hread : ReadBetween (met.scopeOf d) (met.enter d) t text type) :
    ∃ expr, TypeExpr.parse text = .ok expr ∧
      (met.enter d).ReadsAs (met.scopeOf d) t expr type := by
  obtain ⟨hkind, -⟩ := kind_of_fault?_eq_none h.fault
  exact hread.yields ((hs.unchangedButNames h.unchanged).enter hkind h.new) (met.lt_of_mem_scope d)

/-! ## Leaves -/

/-- What a name without arguments stands for in scope, or any name in the store. -/
def meaning? (s : Store) (scope : Scope) : TypeExpr.Atom → Option TypeId
  | .word name => (scope.lookup name).or (s.lookup name 0).toOption
  | .blanks name arity => (s.lookup name arity).toOption

/-- The leaves of the types that the parts of an expression without arguments stand for. -/
def leavesOf (s : Store) (scope : Scope) (atoms : List TypeExpr.Atom) : List TypeId :=
  atoms.flatMap fun atom => ((s.meaning? scope atom).map fun type => (s.tree type).leaves).getD []

theorem leavesOf_append (atoms others : List TypeExpr.Atom) :
    s.leavesOf scope (atoms ++ others) = s.leavesOf scope atoms ++ s.leavesOf scope others :=
  List.flatMap_append

theorem mem_toOption {ε α : Type} {result : Except ε α} {a : α} :
    result.toOption = some a ↔ result = .ok a := by
  cases result <;> simp [Except.toOption]

/-- Names stand for the same in later stores with the same tables. -/
theorem KeepsOutlines.leavesOf_eq (h : s.KeepsOutlines t) (hnaming : s.SameNaming t)
    (hs : s.WellFormed) (hscope : ∀ entry ∈ scope, entry.2 < s.size)
    (atoms : List TypeExpr.Atom) : t.leavesOf scope atoms = s.leavesOf scope atoms := by
  have hlookup : ∀ name arity, (t.lookup name arity).toOption = (s.lookup name arity).toOption := by
    intro name arity
    refine Option.ext fun type => ?_
    rw [mem_toOption, mem_toOption]
    exact lookup_eq_ok_iff (by rw [aliased?, aliased?, hnaming.aliases])
      (by rw [hnaming.qualifiedNames]) (by rw [hnaming.simpleNames])
  have hmeaning : ∀ atom, t.meaning? scope atom = s.meaning? scope atom := by
    intro atom
    cases atom with
    | word name => rw [meaning?, meaning?, hlookup]
    | blanks name arity => rw [meaning?, meaning?, hlookup]
  have hknown : ∀ {atom type}, s.meaning? scope atom = some type → type < s.size := by
    intro atom type htype
    cases atom with
    | word name =>
      rcases Option.or_eq_some_iff.mp htype with hparam | ⟨-, hfound⟩
      · obtain ⟨l₁, l₂, heq, -⟩ := List.lookup_eq_some_iff.mp hparam
        exact hscope (name, type) (heq ▸ by simp)
      · exact lookup_lt hs.closed (mem_toOption.mp hfound)
    | blanks name arity => exact lookup_lt hs.closed (mem_toOption.mp htype)
  refine List.flatMap_congr fun atom _ => ?_
  rw [hmeaning]
  cases htype : s.meaning? scope atom with
  | none => rfl
  | some type =>
    rw [Option.map_some, Option.map_some, h.tree_eq hs (hknown htype)]

theorem leavesOf_singleton {atom : TypeExpr.Atom} (h : s.meaning? scope atom = some type) :
    s.leavesOf scope [atom] = (s.tree type).leaves := by
  rw [leavesOf, List.flatMap_singleton, h]
  rfl

mutual

/-- An expression denotes a tree with the leaves of what its names stand for. -/
theorem Yields.leaves_eq : ∀ {expr : TypeExpr} {tree : TypeTree}, s.Yields scope expr tree →
    tree.leaves = s.leavesOf scope expr.atoms
  | .named name [], _, h => by
    rw [TypeExpr.atoms]
    cases h with
    | inScope hscope => exact (leavesOf_singleton (by rw [meaning?, hscope]; rfl)).symm
    | found hscope hlookup =>
      exact (leavesOf_singleton (by rw [meaning?, hscope, hlookup]; rfl)).symm
  | .named name (arg :: rest), _, h => by
    cases h with
    | applied hlookup hargs =>
      cases hargs with
      | cons harg hrest =>
        rw [TypeExpr.atoms, leavesOf_append, TypeTree.leaves, List.flatMap_cons, harg.leaves_eq,
          Yields.leaves_all_eq hrest]
  | .blanks name arity, _, h => by
    rw [TypeExpr.atoms]
    cases h with
    | blanks hlookup ho => exact (leavesOf_singleton (by rw [meaning?, hlookup]; rfl)).symm
  | .nullable inner, _, h => by
    cases h with
    | nullable hrole hinner =>
      rw [TypeExpr.atoms, TypeTree.leaves, List.flatMap_singleton, hinner.leaves_eq]

theorem Yields.leaves_all_eq : ∀ {exprs : List TypeExpr} {trees : List TypeTree},
    List.Forall₂ (s.Yields scope) exprs trees →
    trees.flatMap TypeTree.leaves = s.leavesOf scope (TypeExpr.atomsAll exprs)
  | [], _, h => by
    cases h
    rfl
  | expr :: exprs, _, h => by
    cases h with
    | cons hexpr hexprs =>
      rw [TypeExpr.atomsAll, leavesOf_append, List.flatMap_cons, hexpr.leaves_eq,
        Yields.leaves_all_eq hexprs]

end

end Store

end NominalTypes
