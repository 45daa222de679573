import NominalTypes.Proofs.Building.Instantiation

/-!
# Names and keywords while types are built

Building instantiations enters no name, no keyword and no role. So a name denotes the same type
before and after, and an old type is shown by the same keyword.

- `Store.SameNaming`: two stores agree on all names, keywords, free parameters and roles.
- `Store.KeepsNaming`: an operation changes none of them, whether it fails or not.
- `Store.instantiateWithin_keepsNaming`, `Store.instantiate_sameNaming`: applying a definition.
- `Store.label_definition`, `Store.label_instantiation`: labels by the origin of a type.
-/

namespace NominalTypes.Store

open Build (Ends ends_pure ends_throw ends_get ends_set ends_modify)

variable {pending : TypeId → Prop} {s t u : Store}

/-- The stores agree on names, keywords, free parameters and roles. -/
structure SameNaming (s t : Store) : Prop where
  simpleNames : t.simpleNames = s.simpleNames
  qualifiedNames : t.qualifiedNames = s.qualifiedNames
  aliases : t.aliases = s.aliases
  keywords : t.keywords = s.keywords
  freeParameters : t.freeParameters = s.freeParameters
  roles : t.roles = s.roles

namespace SameNaming

theorem refl (s : Store) : s.SameNaming s := ⟨rfl, rfl, rfl, rfl, rfl, rfl⟩

theorem trans (h : s.SameNaming t) (h' : t.SameNaming u) : s.SameNaming u :=
  ⟨h'.simpleNames.trans h.simpleNames, h'.qualifiedNames.trans h.qualifiedNames,
    h'.aliases.trans h.aliases, h'.keywords.trans h.keywords,
    h'.freeParameters.trans h.freeParameters, h'.roles.trans h.roles⟩

theorem keyword?_eq (h : s.SameNaming t) (type : TypeId) : t.keyword? type = s.keyword? type := by
  rw [keyword?, keyword?, h.keywords]

end SameNaming

theorem UnchangedButNames.sameNaming (h : s.UnchangedButNames t) : s.SameNaming t := by
  rw [h.eq]
  exact ⟨rfl, rfl, rfl, rfl, rfl, rfl⟩

/-! ## Operations that enter no name -/

/-- The operation leaves names, keywords and roles as they are, also if it fails. -/
def KeepsNaming {α : Type} (operation : Build α) : Prop :=
  ∀ s : Store, operation.Ends s (fun _ t => s.SameNaming t) fun t => s.SameNaming t

namespace KeepsNaming

variable {α β : Type}

theorem pure (a : α) : KeepsNaming (pure a : Build α) := fun s => ends_pure (.refl s)

theorem throw (error : StoreError) : KeepsNaming (throw error : Build α) := fun s =>
  ends_throw (.refl s)

theorem get : KeepsNaming (get : Build Store) := fun s => ends_get (.refl s)

theorem ask (question : Store → Except RelationError α) : KeepsNaming (Build.ask question) :=
  fun s => Build.ends_ask (fun _ _ => .refl s) (.refl s)

theorem bind {operation : Build α} {next : α → Build β} (h : KeepsNaming operation)
    (hnext : ∀ a, KeepsNaming (next a)) : KeepsNaming (operation >>= next) := fun s =>
  Ends.bind ((h s).mono
    (fun a t hst => (hnext a t).mono (fun _ _ => hst.trans) fun _ => hst.trans) fun _ => id)

theorem mapM {f : α → Build β} {as : List α} (h : ∀ a ∈ as, KeepsNaming (f a)) :
    KeepsNaming (as.mapM f) := fun s =>
  Build.ends_mapM_inv (SameNaming.refl s) fun a ha t hst =>
    (h a ha t).mono (fun _ _ htu => hst.trans htu) fun _ htu => hst.trans htu

theorem mapM_option {f : α → Build β} {o : Option α} (h : ∀ a, KeepsNaming (f a)) :
    KeepsNaming (o.mapM f) := fun s =>
  Build.ends_mapM_option (fun _ => .refl s) fun a _ => h a s

end KeepsNaming

/-! ## Instantiation -/

section Instantiation

variable {apply : TypeId → List TypeId → Build TypeId}

theorem substitute_keepsNaming (happly : ∀ definition args, KeepsNaming (apply definition args))
    (params args : List TypeId) (type : TypeId) :
    KeepsNaming (substitute apply params args type) := by
  induction type using Nat.strongRecOn with
  | ind type ih =>
    rw [substitute]
    split
    · exact .pure _
    refine .bind (.ask _) fun d => ?_
    split
    swap
    · exact .pure _
    split
    · next inner _ =>
      dsimp only
      split
      · exact .pure _
      · exact happly _ _
    · next definition inner _ _ =>
      refine .bind (.mapM fun arg _ => ?_) fun replaced => ?_
      · split
        · next hlt => exact ih arg hlt
        · exact .pure _
      · split
        · exact .pure _
        · exact happly _ _
    · exact .pure _

theorem substituteSupertypes_keepsNaming
    (happly : ∀ definition args, KeepsNaming (apply definition args)) (definition type : TypeId) :
    KeepsNaming (substituteSupertypes apply definition type) :=
  .bind (.ask _) fun _ => .bind (.ask _) fun _ =>
    .bind (.mapM_option fun x => substitute_keepsNaming happly _ _ x) fun _ =>
      .bind (.mapM fun x _ => substitute_keepsNaming happly _ _ x) fun _ =>
        fun _ => ends_modify ⟨rfl, rfl, rfl, rfl, rfl, rfl⟩

theorem instantiateWithin_keepsNaming (levels : Nat) :
    ∀ definition args, KeepsNaming (instantiateWithin levels definition args) := by
  induction levels with
  | zero =>
    intro definition args
    rw [instantiateWithin]
    exact .bind .get fun _ => .throw _
  | succ levels ih =>
    intro definition args
    rw [instantiateWithin]
    refine .bind (.ask _) fun g => ?_
    split
    swap
    · exact .bind .get fun _ => .throw _
    split
    · exact .bind .get fun _ => .throw _
    split
    · exact .pure _
    refine .bind (.mapM fun _ _ => .ask _) fun described s => ?_
    refine Ends.bind (ends_get ?_)
    split
    · exact ends_pure (.refl s)
    · have hregister : s.SameNaming
          (s.register g definition args (described.any Descriptor.isOpen)) :=
        ⟨rfl, rfl, rfl, rfl, rfl, rfl⟩
      refine Ends.bind (ends_set ?_)
      refine Ends.bind ((substituteSupertypes_keepsNaming ih definition s.size _).mono ?_ ?_)
      · exact fun _ t hst => ends_pure (hregister.trans hst)
      · exact fun t hst => hregister.trans hst

/-- Applying a definition enters no name. A failed attempt is rolled back, which takes no old name
away. -/
theorem instantiate_sameNaming (hs : s.Consistent pending) (definition : TypeId)
    (args : List TypeId) :
    (instantiate definition args).Ends s (fun _ t => s.SameNaming t) fun t => s.SameNaming t :=
  ((Build.ends_atomic_of_ok (instantiateWithin_keepsNaming _ definition args s)).and
    (instantiate_ends hs)).mono (fun _ _ h => h.1) fun _ h => h.2.sameNaming

end Instantiation

/-! ## Labels -/

section Labels

variable {type definition : TypeId} {args params : List TypeId} {d : Descriptor}
  {style : LabelStyle}

theorem SameNaming.shownKeyword?_eq (h : s.SameNaming t) (style : LabelStyle) (type : TypeId) :
    t.shownKeyword? style type = s.shownKeyword? style type := by
  cases style with
  | short => exact h.keyword?_eq type
  | full => rfl

theorem label_of_keyword (hd : s.get? type = some d) {keyword : String}
    (hkeyword : s.shownKeyword? style type = some keyword) : s.label style type = keyword := by
  rw [label, hd, hkeyword]

/-- A type that is not generic is shown by its name. -/
theorem label_plain (hd : s.get? type = some d) (hnone : s.shownKeyword? style type = none)
    (hplain : d.isGeneric = false) : s.label style type = headName style d := by
  rw [label, hd, hnone]
  dsimp only
  unfold Descriptor.isGeneric at hplain
  cases ho : d.origin with
  | declared | typeParameter _ _ | methodParameter => rfl
  | definition _ | instantiation _ _ _ =>
    rw [ho] at hplain
    cases hplain

theorem label_definition (hd : s.get? type = some d) (hnone : s.shownKeyword? style type = none)
    (ho : d.origin = .definition params) :
    s.label style type = headName style d ++ bracketed (params.map (s.headLabel style)) := by
  rw [label, hd, hnone]
  dsimp only
  rw [ho]

theorem headName_congr {e : Descriptor} (hname : e.name = d.name)
    (hqualifier : e.qualifier = d.qualifier) (style : LabelStyle) :
    headName style e = headName style d := by
  cases style with
  | short => exact hname
  | full => simp only [headName, Descriptor.qualifiedName, hname, hqualifier]

/-- The label of a definition applied to arguments that are shown as given. -/
def appliedLabel (s : Store) (style : LabelStyle) (definition : TypeId) (d : Descriptor)
    (shown : List String) : String :=
  match style, shown with
  | .short, [inner] =>
    if s.roles.nullable = some definition then inner ++ "?"
    else headName .short d ++ bracketed [inner]
  | _, _ => headName style d ++ bracketed shown

theorem label_instantiation (hs : s.WellFormed) (hd : s.get? type = some d)
    (hnone : s.shownKeyword? style type = none) {isOpen : Bool}
    (ho : d.origin = .instantiation definition args isOpen) :
    s.label style type = s.appliedLabel style definition d (args.map (s.label style)) := by
  have hargs : args.map (fun arg => if arg < type then s.label style arg
      else s.headLabel style arg) = args.map (s.label style) := by
    refine List.map_congr_left fun arg harg => ?_
    have ho' := origin?_of_get? hd
    rw [ho] at ho'
    rw [if_pos (hs.args_known ho' harg).1]
  rw [label, hd, hnone]
  dsimp only
  rw [ho]
  dsimp only
  rw [hargs]
  unfold appliedLabel
  rfl

end Labels

end NominalTypes.Store
