import SchemaLang.Proofs.Linking.Nodes
import SchemaLang.Proofs.Reordering.Schema

/-!
# Schemas with one more declaration

`Schema.Extended ρ added s s'` says that `s'` is `s`, with the numbers that `ρ` gives, and the
declaration `added` besides: it comes last in the root module, and its ids and those of what is
nested in it are the ones that `ρ` leaves free.
-/

namespace SchemaLang

/-! ## Other ids in the same order -/

section Rename

variable (ρ : Renaming)

mutual

/-- The declaration with other ids. -/
def LinkedDecl.rename : LinkedDecl → LinkedDecl
  | .const d => .const (d.rename ρ)
  | .struct head ms => .struct (head.rename ρ) (renameMembers ms)
  | .enum d => .enum (d.rename ρ)
  | .interface head bases methods nested effective =>
    .interface (head.rename ρ) (bases.map ρ.decl) (methods.map (LinkedMethod.rename ρ))
      (renameDecls nested) (effective.map (MethodRef.rename ρ))
  | .annotationDecl d => .annotationDecl (d.rename ρ)
  | .pathAlias name target => .pathAlias name (target.rename ρ)
  | .importAlias name module target => .importAlias name (ρ.module module) (target.rename ρ)

/-- The declarations with other ids. -/
def renameDecls : List LinkedDecl → List LinkedDecl
  | [] => []
  | d :: ds => d.rename :: renameDecls ds

/-- The member with other ids. -/
def LinkedMember.rename : LinkedMember → LinkedMember
  | .field f => .field (f.rename ρ)
  | .union head ordinal ms => .union (head.rename ρ) ordinal (renameMembers ms)
  | .anonymousUnion annotations ms =>
    .anonymousUnion (annotations.map (LinkedApplication.rename ρ)) (renameMembers ms)
  | .group head ms => .group (head.rename ρ) (renameMembers ms)
  | .decl d => .decl d.rename

/-- The members of a body with other ids. -/
def renameMembers : List LinkedMember → List LinkedMember
  | [] => []
  | m :: ms => m.rename :: renameMembers ms

end

/-- The module with other ids. -/
def LinkedModule.rename (m : LinkedModule) : LinkedModule :=
  ⟨m.path, m.fileId, m.annotations.map (LinkedApplication.rename ρ), renameDecls ρ m.decls⟩

end Rename

theorem Rearranged.eq_of_fixed {α : Type} {movable : α → Bool} {as bs : List α}
    (h : Rearranged movable as bs) (hfixed : ∀ a, movable a = false) : bs = as := by
  have heq := h.fixed
  simpa only [hfixed, Bool.not_false, List.filter_true] using heq.symm

section Fixed

variable {ρ : Renaming}

mutual

theorem LinkedDecl.Reordered.eq_rename : ∀ {d d' : LinkedDecl},
    d.Reordered ρ false d' → d' = d.rename ρ
  | .const _, _, .const | .enum _, _, .enum | .annotationDecl _, _, .annotationDecl
  | .pathAlias _ _, _, .pathAlias | .importAlias _ _ _, _, .importAlias => rfl
  | .struct _ _, _, .struct members order => by
    rw [order.eq_of_fixed fun _ => rfl, eq_renameMembers members, LinkedDecl.rename]
  | .interface _ _ _ _ _, _, .interface members order => by
    rw [order.eq_of_fixed fun _ => rfl, eq_renameDecls members, LinkedDecl.rename]

theorem eq_renameDecls : ∀ {ds ds' : List LinkedDecl},
    List.Forall₂ (LinkedDecl.Reordered ρ false) ds ds' → ds' = renameDecls ρ ds
  | [], _, .nil => rfl
  | _ :: _, _, .cons hd hds => by rw [hd.eq_rename, eq_renameDecls hds, renameDecls]

theorem LinkedMember.Reordered.eq_rename : ∀ {m m' : LinkedMember},
    m.Reordered ρ false m' → m' = m.rename ρ
  | .field _, _, .field => rfl
  | .union _ _ _, _, .union members order => by
    rw [order.eq_of_fixed fun _ => rfl, eq_renameMembers members, LinkedMember.rename]
  | .anonymousUnion _ _, _, .anonymousUnion members order => by
    rw [order.eq_of_fixed fun _ => rfl, eq_renameMembers members, LinkedMember.rename]
  | .group _ _, _, .group members order => by
    rw [order.eq_of_fixed fun _ => rfl, eq_renameMembers members, LinkedMember.rename]
  | .decl _, _, .decl nested => by rw [nested.eq_rename, LinkedMember.rename]

theorem eq_renameMembers : ∀ {ms ms' : List LinkedMember},
    List.Forall₂ (LinkedMember.Reordered ρ false) ms ms' → ms' = renameMembers ρ ms
  | [], _, .nil => rfl
  | _ :: _, _, .cons hm hms => by rw [hm.eq_rename, eq_renameMembers hms, renameMembers]

end

theorem LinkedModule.Reordered.eq_rename {m m' : LinkedModule} (h : m.Reordered ρ false m') :
    m' = m.rename ρ := by
  obtain ⟨path, fileId, annotations, decls⟩ := m'
  obtain ⟨rfl, rfl, rfl, ds, hds, horder⟩ := h
  obtain rfl : decls = ds := horder.eq_of_fixed fun _ => rfl
  rw [eq_renameDecls hds, LinkedModule.rename]

end Fixed

/-! ## One more declaration -/

/-- The name that a linked declaration goes by. -/
def LinkedDecl.name? : LinkedDecl → Option String
  | .const d => some d.name
  | .struct head _ => some head.name
  | .enum d => some d.name
  | .interface head _ _ _ _ => some head.name
  | .annotationDecl d => some d.name
  | .pathAlias name _ => some name
  | .importAlias name _ _ => name

/-- The ids of a declaration and of all that is nested in it. -/
def LinkedDecl.ids (d : LinkedDecl) : List DeclId :=
  (d.nodes Schema.root none).map fun n => n.content.id

/-- The second schema holds the modules of the first one, with the numbers that `ρ` gives to
declarations, and as the last declaration of the root the one that was added.  Its ids, and those of
what is nested in it, are no others, and they are all that were not in the first schema. -/
structure Schema.Extended (ρ : Renaming) (added : LinkedDecl) (s s' : Schema) : Prop where
  module : ∀ id, ρ.module id = id
  modules : ∃ first rest, s.modules.map (LinkedModule.rename ρ) = first :: rest ∧
    s'.modules = { first with decls := first.decls ++ [added] } :: rest
  declsBijective : Set.BijOn ρ.decl (Set.Iio s.decls.size)
    {id | id < s'.decls.size ∧ id ∉ added.ids}
  decls : ∀ id : DeclId, s'.decls[ρ.decl id]? = s.decls[id]?.map (DeclInfo.rename ρ)

end SchemaLang
