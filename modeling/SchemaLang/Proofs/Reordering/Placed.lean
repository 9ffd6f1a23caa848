import SchemaLang.Proofs.Placing.ScopeNumbers
import SchemaLang.Proofs.Placing.Tables
import SchemaLang.Proofs.Reordering.Schema
import SchemaLang.Proofs.Reordering.Source

/-!
# Placed modules in another order

`PlacedDecl.Reordered ρ moved d d'` says that `d'` is `d` with other numbers, those that `ρ` gives,
and with the declarations inside it in another order if `moved` is set.  Any two ways of placing a
declaration and the same in another order are so related, by any renaming that extends some pairs of
their numbers: `matches_decl`.
-/

namespace SchemaLang

/-- The member is a declaration, and not one of the parts of which the body is made. -/
def PlacedMember.isDecl : PlacedMember → Bool
  | .decl _ => true
  | .field _ | .union _ _ _ _ _ | .anonymousUnion _ _ _ _ | .group _ _ _ _ => false

/-- The item is a declaration, and not a method. -/
def PlacedInterfaceMember.isDecl : PlacedInterfaceMember → Bool
  | .decl _ => true
  | .method _ => false

section Reordered

variable (ρ : Renaming)

mutual

/-- A placed declaration and the same with other numbers, and with the declarations inside it in
another order if `moved` is set. -/
inductive PlacedDecl.Reordered (moved : Bool) : PlacedDecl → PlacedDecl → Prop
  | const {id : DeclId} {d : Const} :
      PlacedDecl.Reordered moved (.const id d) (.const (ρ.decl id) d)
  | struct {id : DeclId} {body : ScopeId} {head : Head} {ms ms₁ ms' : List PlacedMember}
      (members : List.Forall₂ (PlacedMember.Reordered moved) ms ms₁)
      (order : Swaps (fun m => moved && m.isDecl) ms₁ ms') :
      PlacedDecl.Reordered moved (.struct id body head ms)
        (.struct (ρ.decl id) (ρ.scope body) head ms')
  | enum {id : DeclId} {d : Enum} :
      PlacedDecl.Reordered moved (.enum id d) (.enum (ρ.decl id) d)
  | interface {id : DeclId} {body : ScopeId} {head : Head} {bases : List TypeRef}
      {ms ms₁ ms' : List PlacedInterfaceMember}
      (members : List.Forall₂ (PlacedInterfaceMember.Reordered moved) ms ms₁)
      (order : Swaps (fun m => moved && m.isDecl) ms₁ ms') :
      PlacedDecl.Reordered moved (.interface id body head bases ms)
        (.interface (ρ.decl id) (ρ.scope body) head bases ms')
  | annotationDecl {id : DeclId} {d : AnnotationDecl} :
      PlacedDecl.Reordered moved (.annotationDecl id d) (.annotationDecl (ρ.decl id) d)
  | pathAlias {a : Alias} : PlacedDecl.Reordered moved (.pathAlias a) (.pathAlias a)
  | importAlias {a : ImportAlias} : PlacedDecl.Reordered moved (.importAlias a) (.importAlias a)

/-- A placed member and the same with other numbers, and with the declarations inside it in another
order if `moved` is set. -/
inductive PlacedMember.Reordered (moved : Bool) : PlacedMember → PlacedMember → Prop
  | field {f : Field} : PlacedMember.Reordered moved (.field f) (.field f)
  | union {id : DeclId} {body : ScopeId} {head : Head} {ordinal : Option Ordinal}
      {ms ms₁ ms' : List PlacedMember}
      (members : List.Forall₂ (PlacedMember.Reordered moved) ms ms₁)
      (order : Swaps (fun m => moved && m.isDecl) ms₁ ms') :
      PlacedMember.Reordered moved (.union id body head ordinal ms)
        (.union (ρ.decl id) (ρ.scope body) head ordinal ms')
  | anonymousUnion {body : ScopeId} {span : Span} {annotations : List Application}
      {ms ms₁ ms' : List PlacedMember}
      (members : List.Forall₂ (PlacedMember.Reordered moved) ms ms₁)
      (order : Swaps (fun m => moved && m.isDecl) ms₁ ms') :
      PlacedMember.Reordered moved (.anonymousUnion body span annotations ms)
        (.anonymousUnion (ρ.scope body) span annotations ms')
  | group {id : DeclId} {body : ScopeId} {head : Head} {ms ms₁ ms' : List PlacedMember}
      (members : List.Forall₂ (PlacedMember.Reordered moved) ms ms₁)
      (order : Swaps (fun m => moved && m.isDecl) ms₁ ms') :
      PlacedMember.Reordered moved (.group id body head ms)
        (.group (ρ.decl id) (ρ.scope body) head ms')
  | decl {d d' : PlacedDecl} (nested : PlacedDecl.Reordered moved d d') :
      PlacedMember.Reordered moved (.decl d) (.decl d')

/-- A placed item of an interface and the same with other numbers, and with the declarations inside
it in another order if `moved` is set. -/
inductive PlacedInterfaceMember.Reordered (moved : Bool) :
    PlacedInterfaceMember → PlacedInterfaceMember → Prop
  | method {m : Method} : PlacedInterfaceMember.Reordered moved (.method m) (.method m)
  | decl {d d' : PlacedDecl} (nested : PlacedDecl.Reordered moved d d') :
      PlacedInterfaceMember.Reordered moved (.decl d) (.decl d')

end

/-- The declarations of a file and the same with other numbers, and in another order, at file scope
and inside them, if `moved` is set. -/
def FileReordered (moved : Bool) (ds ds' : List PlacedDecl) : Prop :=
  ∃ ds₁, List.Forall₂ (PlacedDecl.Reordered ρ moved) ds ds₁ ∧ Swaps (fun _ => moved) ds₁ ds'

end Reordered

/-! ## Numbers that match -/

/-- The renaming gives the second number of each pair to the first. -/
structure Renaming.Extends (ρ : Renaming) (decls scopes : List (Nat × Nat)) : Prop where
  decl : ∀ p ∈ decls, ρ.decl p.1 = p.2
  scope : ∀ p ∈ scopes, ρ.scope p.1 = p.2

/-- The ids can be paired up, and the numbers of scopes too, such that every renaming that extends
the pairs has the property `P`. -/
def Matches (ids ids' : List DeclId) (scopes scopes' : List ScopeId) (P : Renaming → Prop) : Prop :=
  ∃ decls scopePairs : List (Nat × Nat),
    decls.map Prod.fst = ids ∧ (decls.map Prod.snd).Perm ids' ∧
    scopePairs.map Prod.fst = scopes ∧ (scopePairs.map Prod.snd).Perm scopes' ∧
    ∀ ρ : Renaming, ρ.Extends decls scopePairs → P ρ

section Matches

variable {ids ids' ids₁ ids₁' : List DeclId} {scopes scopes' scopes₁ scopes₁' : List ScopeId}
  {P Q : Renaming → Prop}

theorem matches_nil (h : ∀ ρ, P ρ) : Matches [] [] [] [] P :=
  ⟨[], [], rfl, .nil, rfl, .nil, fun ρ _ => h ρ⟩

theorem matches_decl_singleton (id id' : DeclId) :
    Matches [id] [id'] [] [] fun ρ => ρ.decl id = id' :=
  ⟨[(id, id')], [], rfl, .refl _, rfl, .nil, fun _ h => h.decl _ List.mem_cons_self⟩

theorem matches_scope_singleton (scope scope' : ScopeId) :
    Matches [] [] [scope] [scope'] fun ρ => ρ.scope scope = scope' :=
  ⟨[], [(scope, scope')], rfl, .nil, rfl, .refl _, fun _ h => h.scope _ List.mem_cons_self⟩

theorem Matches.mono (h : Matches ids ids' scopes scopes' P) (hP : ∀ ρ, P ρ → Q ρ) :
    Matches ids ids' scopes scopes' Q := by
  obtain ⟨decls, pairs, hfst, hsnd, hfst', hsnd', hall⟩ := h
  exact ⟨decls, pairs, hfst, hsnd, hfst', hsnd', fun ρ hρ => hP ρ (hall ρ hρ)⟩

theorem Matches.append (h : Matches ids ids' scopes scopes' P)
    (h₁ : Matches ids₁ ids₁' scopes₁ scopes₁' Q) :
    Matches (ids ++ ids₁) (ids' ++ ids₁') (scopes ++ scopes₁) (scopes' ++ scopes₁')
      fun ρ => P ρ ∧ Q ρ := by
  obtain ⟨decls, pairs, rfl, hsnd, rfl, hsnd', hall⟩ := h
  obtain ⟨decls₁, pairs₁, rfl, hsnd₁, rfl, hsnd₁', hall₁⟩ := h₁
  refine ⟨decls ++ decls₁, pairs ++ pairs₁, List.map_append, ?_, List.map_append, ?_,
    fun ρ hρ => ⟨hall ρ ⟨fun p hp => hρ.decl p (List.mem_append_left _ hp),
      fun p hp => hρ.scope p (List.mem_append_left _ hp)⟩,
      hall₁ ρ ⟨fun p hp => hρ.decl p (List.mem_append_right _ hp),
      fun p hp => hρ.scope p (List.mem_append_right _ hp)⟩⟩⟩
  · rw [List.map_append]
    exact hsnd.append hsnd₁
  · rw [List.map_append]
    exact hsnd'.append hsnd₁'

theorem Matches.perm (h : Matches ids ids' scopes scopes' P) (hids : ids'.Perm ids₁')
    (hscopes : scopes'.Perm scopes₁') : Matches ids ids₁' scopes scopes₁' P := by
  obtain ⟨decls, pairs, hfst, hsnd, hfst', hsnd', hall⟩ := h
  exact ⟨decls, pairs, hfst, hsnd.trans hids, hfst', hsnd'.trans hscopes, hall⟩

/-- Lists whose elements match. -/
theorem matches_flatMap {α β : Type} {ids : α → List DeclId} {ids' : β → List DeclId}
    {scopes : α → List ScopeId} {scopes' : β → List ScopeId} {S : Renaming → α → β → Prop}
    {as : List α} {bs : List β}
    (h : List.Forall₂ (fun a b => Matches (ids a) (ids' b) (scopes a) (scopes' b) (S · a b))
      as bs) :
    Matches (as.flatMap ids) (bs.flatMap ids') (as.flatMap scopes) (bs.flatMap scopes')
      fun ρ => List.Forall₂ (S ρ) as bs := by
  induction h with
  | nil => exact matches_nil fun _ => .nil
  | cons hab _ ih => exact (hab.append ih).mono fun _ ⟨hab, hs⟩ => .cons hab hs

/-- One more scope, that of a body. -/
theorem Matches.cons_scope (h : Matches ids ids' scopes scopes' P) (scope scope' : ScopeId) :
    Matches ids ids' (scope :: scopes) (scope' :: scopes')
      fun ρ => ρ.scope scope = scope' ∧ P ρ :=
  (matches_scope_singleton scope scope').append h

/-- One more declaration with a body. -/
theorem Matches.cons_body (h : Matches ids ids' scopes scopes' P) (id id' : DeclId)
    (scope scope' : ScopeId) :
    Matches (id :: ids) (id' :: ids') (scope :: scopes) (scope' :: scopes')
      fun ρ => ρ.decl id = id' ∧ ρ.scope scope = scope' ∧ P ρ :=
  (matches_decl_singleton id id').append (h.cons_scope scope scope')

end Matches

/-! ## Placing in another order -/

section Placing

variable {moved : Bool}

/-- What is rearranged without its numbers is rearranged with them. -/
theorem exists_placed {τ π : Type} {tree : π → τ} {movable : τ → Bool} {movable' : π → Bool}
    {R : τ → τ → Prop} {ps ps' : List π} {ts : List τ}
    (members : List.Forall₂ R (ps.map tree) ts) (order : Rearranged movable ts (ps'.map tree))
    (hmovable : ∀ p, movable' p = movable (tree p)) :
    ∃ ps₁, List.Forall₂ (fun p p₁ => R (tree p) (tree p₁)) ps ps₁ ∧ Swaps movable' ps₁ ps' := by
  have hps' : List.Forall₂ (fun t p => t = tree p) (ps'.map tree) ps' :=
    List.forall₂_map_left_iff.2 (List.forall₂_same.2 fun p _ => rfl)
  obtain ⟨ps₁, hps₁, hswaps⟩ :=
    order.swaps.lift (fun t p (e : t = tree p) => e ▸ hmovable p) hps'
  refine ⟨ps₁, ?_, hswaps⟩
  have hts : ts = ps₁.map tree := by
    rw [← List.forall₂_eq_eq_eq, List.forall₂_map_right_iff]
    exact hps₁
  rw [hts, List.forall₂_map_left_iff, List.forall₂_map_right_iff] at members
  exact members

theorem PlacedMember.isDecl_eq (m : PlacedMember) : m.isDecl = m.tree.isDecl := by
  cases m <;> rfl

theorem PlacedInterfaceMember.isDecl_eq (m : PlacedInterfaceMember) :
    m.isDecl = m.tree.isDecl := by
  cases m <;> rfl

theorem exists_reordered_members {ms ms' : List PlacedMember} {ts : List Member}
    (members : List.Forall₂ (Member.Reordered moved) (memberTrees ms) ts)
    (order : Rearranged (fun m => moved && m.isDecl) ts (memberTrees ms')) :
    ∃ ms₁, List.Forall₂ (fun m m₁ => m.tree.Reordered moved m₁.tree) ms ms₁ ∧
      Swaps (fun m => moved && m.isDecl) ms₁ ms' := by
  rw [memberTrees_eq_map] at members order
  exact exists_placed members order fun m => by rw [m.isDecl_eq]

theorem exists_reordered_interfaceMembers {ms ms' : List PlacedInterfaceMember}
    {ts : List InterfaceMember}
    (members : List.Forall₂ (InterfaceMember.Reordered moved) (interfaceMemberTrees ms) ts)
    (order : Rearranged (fun m => moved && m.isDecl) ts (interfaceMemberTrees ms')) :
    ∃ ms₁, List.Forall₂ (fun m m₁ => m.tree.Reordered moved m₁.tree) ms ms₁ ∧
      Swaps (fun m => moved && m.isDecl) ms₁ ms' := by
  rw [interfaceMemberTrees_eq_map] at members order
  exact exists_placed members order fun m => by rw [m.isDecl_eq]

/-- The order of the members of a body does not matter. -/
theorem Matches.body {ids : List DeclId} {scopes : List ScopeId} {P : Renaming → Prop}
    {ms₁ ms' : List PlacedMember}
    (h : Matches ids (memberIds ms₁) scopes (memberScopeIds ms₁) P)
    (order : Swaps (fun m => moved && m.isDecl) ms₁ ms') :
    Matches ids (memberIds ms') scopes (memberScopeIds ms') P := by
  refine h.perm ?_ ?_
  · rw [memberIds_eq_flatMap, memberIds_eq_flatMap]
    exact order.perm.flatMap_right _
  · rw [memberScopeIds_eq_flatMap, memberScopeIds_eq_flatMap]
    exact order.perm.flatMap_right _

/-- The order of the items of an interface does not matter. -/
theorem Matches.interfaceBody {ids : List DeclId} {scopes : List ScopeId} {P : Renaming → Prop}
    {ms₁ ms' : List PlacedInterfaceMember}
    (h : Matches ids (interfaceMemberIds ms₁) scopes (interfaceMemberScopeIds ms₁) P)
    (order : Swaps (fun m => moved && m.isDecl) ms₁ ms') :
    Matches ids (interfaceMemberIds ms') scopes (interfaceMemberScopeIds ms') P := by
  refine h.perm ?_ ?_
  · rw [interfaceMemberIds_eq_flatMap, interfaceMemberIds_eq_flatMap]
    exact order.perm.flatMap_right _
  · rw [interfaceMemberScopeIds_eq_flatMap, interfaceMemberScopeIds_eq_flatMap]
    exact order.perm.flatMap_right _

mutual

theorem matches_decl : ∀ (d d' : PlacedDecl), d.tree.Reordered moved d'.tree →
    Matches d.ids d'.ids d.scopeIds d'.scopeIds fun ρ => d.Reordered ρ moved d'
  | .const id _, .const id' _, .const =>
    (matches_decl_singleton id id').mono fun _ hid => hid ▸ .const
  | .struct id body _ ms, .struct id' body' _ ms', .struct members order => by
    obtain ⟨ms₁, members, order⟩ := exists_reordered_members members order
    refine (((matches_members ms ms₁ members).body order).cons_body id id' body body').mono ?_
    rintro ρ ⟨rfl, rfl, members⟩
    exact .struct members order
  | .enum id _, .enum id' _, .enum =>
    (matches_decl_singleton id id').mono fun _ hid => hid ▸ .enum
  | .interface id body _ _ ms, .interface id' body' _ _ ms', .interface members order => by
    obtain ⟨ms₁, members, order⟩ := exists_reordered_interfaceMembers members order
    refine (((matches_interfaceMembers ms ms₁ members).interfaceBody order).cons_body id id' body
      body').mono ?_
    rintro ρ ⟨rfl, rfl, members⟩
    exact .interface members order
  | .annotationDecl id _, .annotationDecl id' _, .annotationDecl =>
    (matches_decl_singleton id id').mono fun _ hid => hid ▸ .annotationDecl
  | .pathAlias _, .pathAlias _, .pathAlias => matches_nil fun _ => .pathAlias
  | .importAlias _, .importAlias _, .importAlias => matches_nil fun _ => .importAlias

theorem matches_member : ∀ (m m' : PlacedMember), m.tree.Reordered moved m'.tree →
    Matches m.ids m'.ids m.scopeIds m'.scopeIds fun ρ => m.Reordered ρ moved m'
  | .field _, .field _, .field => matches_nil fun _ => .field
  | .union id body _ _ ms, .union id' body' _ _ ms', .union members order => by
    obtain ⟨ms₁, members, order⟩ := exists_reordered_members members order
    refine (((matches_members ms ms₁ members).body order).cons_body id id' body body').mono ?_
    rintro ρ ⟨rfl, rfl, members⟩
    exact .union members order
  | .anonymousUnion body _ _ ms, .anonymousUnion body' _ _ ms', .anonymousUnion members order => by
    obtain ⟨ms₁, members, order⟩ := exists_reordered_members members order
    refine (((matches_members ms ms₁ members).body order).cons_scope body body').mono ?_
    rintro ρ ⟨rfl, members⟩
    exact .anonymousUnion members order
  | .group id body _ ms, .group id' body' _ ms', .group members order => by
    obtain ⟨ms₁, members, order⟩ := exists_reordered_members members order
    refine (((matches_members ms ms₁ members).body order).cons_body id id' body body').mono ?_
    rintro ρ ⟨rfl, rfl, members⟩
    exact .group members order
  | .decl d, .decl d', .decl nested => (matches_decl d d' nested).mono fun _ => .decl

theorem matches_members : ∀ ms ms' : List PlacedMember,
    List.Forall₂ (fun m m' => m.tree.Reordered moved m'.tree) ms ms' →
    Matches (memberIds ms) (memberIds ms') (memberScopeIds ms) (memberScopeIds ms')
      fun ρ => List.Forall₂ (PlacedMember.Reordered ρ moved) ms ms'
  | [], [], .nil => matches_nil fun _ => .nil
  | m :: ms, m' :: ms', .cons h hs =>
    ((matches_member m m' h).append (matches_members ms ms' hs)).mono
      fun _ ⟨h, hs⟩ => .cons h hs

theorem matches_interfaceMember : ∀ m m' : PlacedInterfaceMember,
    m.tree.Reordered moved m'.tree →
    Matches m.ids m'.ids m.scopeIds m'.scopeIds fun ρ => m.Reordered ρ moved m'
  | .method _, .method _, .method => matches_nil fun _ => .method
  | .decl d, .decl d', .decl nested => (matches_decl d d' nested).mono fun _ => .decl

theorem matches_interfaceMembers : ∀ ms ms' : List PlacedInterfaceMember,
    List.Forall₂ (fun m m' => m.tree.Reordered moved m'.tree) ms ms' →
    Matches (interfaceMemberIds ms) (interfaceMemberIds ms') (interfaceMemberScopeIds ms)
      (interfaceMemberScopeIds ms')
      fun ρ => List.Forall₂ (PlacedInterfaceMember.Reordered ρ moved) ms ms'
  | [], [], .nil => matches_nil fun _ => .nil
  | m :: ms, m' :: ms', .cons h hs =>
    ((matches_interfaceMember m m' h).append (matches_interfaceMembers ms ms' hs)).mono
      fun _ ⟨h, hs⟩ => .cons h hs

end

theorem matches_decls {ds ds' : List PlacedDecl}
    (h : List.Forall₂ (fun d d' => d.tree.Reordered moved d'.tree) ds ds') :
    Matches (ds.flatMap PlacedDecl.ids) (ds'.flatMap PlacedDecl.ids)
      (ds.flatMap PlacedDecl.scopeIds) (ds'.flatMap PlacedDecl.scopeIds)
      fun ρ => List.Forall₂ (PlacedDecl.Reordered ρ moved) ds ds' :=
  matches_flatMap (h.imp fun d d' => matches_decl d d')

/-- Any two ways of placing the declarations of a file, the second time in another order. -/
theorem matches_file {ds ds' : List PlacedDecl} {ts : List Decl}
    (decls : List.Forall₂ (Decl.Reordered moved) (ds.map PlacedDecl.tree) ts)
    (order : Rearranged (fun _ => moved) ts (ds'.map PlacedDecl.tree)) :
    Matches (ds.flatMap PlacedDecl.ids) (ds'.flatMap PlacedDecl.ids)
      (ds.flatMap PlacedDecl.scopeIds) (ds'.flatMap PlacedDecl.scopeIds)
      fun ρ => FileReordered ρ moved ds ds' := by
  obtain ⟨ds₁, decls, order⟩ : ∃ ds₁,
      List.Forall₂ (fun d d₁ => d.tree.Reordered moved d₁.tree) ds ds₁ ∧
        Swaps (fun _ => moved) ds₁ ds' := exists_placed decls order fun _ => rfl
  refine ((matches_decls decls).perm (order.perm.flatMap_right _)
    (order.perm.flatMap_right _)).mono ?_
  exact fun ρ decls => ⟨ds₁, decls, order⟩

/-- Any two ways of placing a module, the second time in another order. -/
theorem matches_module {ds ds' : List PlacedDecl} {m m' : Module}
    (hds : ds.map PlacedDecl.tree = m.decls) (hds' : ds'.map PlacedDecl.tree = m'.decls)
    (h : m.Reordered moved m') (scope scope' : ScopeId) :
    Matches (ds.flatMap PlacedDecl.ids) (ds'.flatMap PlacedDecl.ids)
      (scope :: ds.flatMap PlacedDecl.scopeIds) (scope' :: ds'.flatMap PlacedDecl.scopeIds)
      fun ρ => ρ.scope scope = scope' ∧ FileReordered ρ moved ds ds' := by
  obtain ⟨ts, decls, order⟩ := h.decls
  rw [← hds] at decls
  rw [← hds'] at order
  exact (matches_file decls order).cons_scope scope scope'

end Placing

end SchemaLang
