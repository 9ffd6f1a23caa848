import SchemaLang.Proofs.Placing.ScopeNumbers
import SchemaLang.Proofs.Placing.Tables

/-!
# The bodies of a placed module

A `Body` is what stands in one scope: the file, or the body of a struct, union, group or interface.
Every scope of a module is that of one of its bodies and every entry that of something declared
directly in one of them, and each body other than the file is opened in another one: `Tallies`.
-/

namespace SchemaLang

/-- What stands in a scope, in the order of the source, and the declaration that the scope belongs
to.  A method stands in its place as nothing: it neither declares a name nor opens a scope. -/
structure Body where
  scope : ScopeId
  enclosing : List ScopeId
  owner : Option DeclId
  items : List (Option PlacedMember)

/-- An item of an interface as a member, unless it is a method. -/
def PlacedInterfaceMember.member? : PlacedInterfaceMember → Option PlacedMember
  | .method _ => none
  | .decl d => some (.decl d)

theorem PlacedInterfaceMember.member?_declared? (m : PlacedInterfaceMember) :
    (m.member?.bind fun m => m.declared?) = m.declared? := by
  cases m <;> rfl

theorem PlacedInterfaceMember.member?_aliased? (m : PlacedInterfaceMember) :
    (m.member?.bind fun m => m.aliased?) = m.aliased? := by
  cases m <;> rfl

namespace Body

/-- A body that is opened inside another one. -/
def nested (around : Body) (scope : ScopeId) (owner : Option DeclId)
    (items : List (Option PlacedMember)) : Body :=
  ⟨scope, around.scope :: around.enclosing, owner, items⟩

/-- The scope of a body. -/
def toScope (module : ModuleId) (b : Body) : Scope :=
  .binding module b.enclosing (b.items.filterMap fun o => o.bind (·.declared?))
    (b.items.filterMap fun o => o.bind (·.aliased?))

/-- The body that a member of a body opens.  That of an anonymous union belongs to the declaration
around it. -/
def opened? (b : Body) : PlacedMember → Option Body
  | .union id body _ _ ms => some (b.nested body (some id) (ms.map some))
  | .anonymousUnion body _ _ ms => some (b.nested body b.owner (ms.map some))
  | .group id body _ ms => some (b.nested body (some id) (ms.map some))
  | .decl (.struct id body _ ms) => some (b.nested body (some id) (ms.map some))
  | .decl (.interface id body _ _ ms) => some (b.nested body (some id) (ms.map (·.member?)))
  | _ => none

/-- The bodies that are opened directly in a body. -/
def inner (b : Body) : List Body := b.items.filterMap fun o => o.bind b.opened?

/-- The id of what a member of a body declares, and its entry. -/
def row? (module : ModuleId) (b : Body) (m : PlacedMember) : Option (DeclId × Entry) :=
  m.declared?.bind fun x => (m.entries module b.owner b.scope).head?.map fun e => (x.1, e)

/-- The ids of what is declared directly in a body, each with its entry. -/
def rows (module : ModuleId) (b : Body) : List (DeclId × Entry) :=
  b.items.filterMap fun o => o.bind (b.row? module)

end Body

/-! ## All bodies -/

mutual

/-- The bodies in a declaration, its own before those nested in it. -/
def PlacedDecl.bodies (around : Body) : PlacedDecl → List Body
  | .struct id body _ ms =>
    let b := around.nested body (some id) (ms.map some)
    b :: placedMemberBodies b ms
  | .interface id body _ _ ms =>
    let b := around.nested body (some id) (ms.map (·.member?))
    b :: placedInterfaceMemberBodies b ms
  | _ => []

/-- The bodies in a member. -/
def PlacedMember.bodies (around : Body) : PlacedMember → List Body
  | .field _ => []
  | .union id body _ _ ms =>
    let b := around.nested body (some id) (ms.map some)
    b :: placedMemberBodies b ms
  | .anonymousUnion body _ _ ms =>
    let b := around.nested body around.owner (ms.map some)
    b :: placedMemberBodies b ms
  | .group id body _ ms =>
    let b := around.nested body (some id) (ms.map some)
    b :: placedMemberBodies b ms
  | .decl d => d.bodies around

/-- The bodies in the members of a body. -/
def placedMemberBodies (around : Body) : List PlacedMember → List Body
  | [] => []
  | m :: ms => m.bodies around ++ placedMemberBodies around ms

/-- The bodies in an item of an interface. -/
def PlacedInterfaceMember.bodies (around : Body) : PlacedInterfaceMember → List Body
  | .method _ => []
  | .decl d => d.bodies around

/-- The bodies in the items of an interface. -/
def placedInterfaceMemberBodies (around : Body) : List PlacedInterfaceMember → List Body
  | [] => []
  | m :: ms => m.bodies around ++ placedInterfaceMemberBodies around ms

end

/-! ## Tables of bodies -/

/-- The scopes and the numbered entries of some items tally with their bodies: `own` are the rows of
the items themselves and `opened` the bodies that the items open.  A body comes before those that
are opened in it. -/
structure Tallies (module : ModuleId) (own : List (DeclId × Entry)) (opened bodies : List Body)
    (scopes : List Scope) (scopeIds : List ScopeId) (rows : List (DeclId × Entry)) : Prop where
  scopes_eq : scopes = bodies.map (Body.toScope module)
  scopeIds_eq : scopeIds = bodies.map Body.scope
  mem_rows : ∀ row, row ∈ rows ↔ row ∈ own ∨ ∃ b ∈ bodies, row ∈ b.rows module
  opened_subset : opened ⊆ bodies
  inner : ∀ b ∈ bodies, ∀ b' ∈ b.inner, [b, b'].Sublist bodies
  within : ∀ b ∈ bodies, b ∈ opened ∨ ∃ around ∈ bodies, b ∈ around.inner

section Tallies

variable {module : ModuleId} {own own' rows rows' : List (DeclId × Entry)}
  {opened opened' bodies bodies' : List Body} {scopes scopes' : List Scope}
  {scopeIds scopeIds' : List ScopeId}

theorem tallies_nil (module : ModuleId) : Tallies module [] [] [] [] [] [] :=
  ⟨rfl, rfl, by simp, List.Subset.refl _, nofun, nofun⟩

theorem Tallies.append (h : Tallies module own opened bodies scopes scopeIds rows)
    (h' : Tallies module own' opened' bodies' scopes' scopeIds' rows') :
    Tallies module (own ++ own') (opened ++ opened') (bodies ++ bodies') (scopes ++ scopes')
      (scopeIds ++ scopeIds') (rows ++ rows') := by
  constructor
  case scopes_eq => rw [h.scopes_eq, h'.scopes_eq, List.map_append]
  case scopeIds_eq => rw [h.scopeIds_eq, h'.scopeIds_eq, List.map_append]
  case mem_rows =>
    intro row
    simp only [List.mem_append, h.mem_rows, h'.mem_rows, or_and_right, exists_or]
    exact or_or_or_comm
  case opened_subset =>
    exact List.append_subset.2 ⟨List.Subset.trans h.opened_subset (List.subset_append_left _ _),
      List.Subset.trans h'.opened_subset (List.subset_append_right _ _)⟩
  case inner =>
    refine List.forall_mem_append.2 ⟨fun b hb b' hb' => ?_, fun b hb b' hb' => ?_⟩
    · exact (h.inner b hb b' hb').trans (List.sublist_append_left _ _)
    · exact (h'.inner b hb b' hb').trans (List.sublist_append_right _ _)
  case within =>
    refine List.forall_mem_append.2 ⟨fun b hb => ?_, fun b hb => ?_⟩
    · exact (h.within b hb).imp (List.mem_append_left _)
        fun ⟨around, haround, hinner⟩ => ⟨around, List.mem_append_left _ haround, hinner⟩
    · exact (h'.within b hb).imp (List.mem_append_right _)
        fun ⟨around, haround, hinner⟩ => ⟨around, List.mem_append_right _ haround, hinner⟩

/-- What stands in a body, seen from outside the body. -/
theorem Tallies.opens {b : Body}
    (h : Tallies module (b.rows module) b.inner bodies scopes scopeIds rows) :
    Tallies module [] [b] (b :: bodies) (b.toScope module :: scopes) (b.scope :: scopeIds)
      rows := by
  constructor
  case scopes_eq => rw [h.scopes_eq, List.map_cons]
  case scopeIds_eq => rw [h.scopeIds_eq, List.map_cons]
  case mem_rows =>
    intro row
    rw [h.mem_rows]
    simp only [List.mem_cons, List.not_mem_nil, false_or, exists_eq_or_imp]
  case opened_subset => exact List.cons_subset.2 ⟨List.mem_cons_self, List.nil_subset _⟩
  case inner =>
    refine List.forall_mem_cons.2 ⟨fun b' hb' => ?_, fun b₁ hb₁ b' hb' => ?_⟩
    · exact (List.singleton_sublist.2 (h.opened_subset hb')).cons_cons b
    · exact (h.inner b₁ hb₁ b' hb').cons b
  case within =>
    refine List.forall_mem_cons.2 ⟨.inl List.mem_cons_self, fun b' hb' => .inr ?_⟩
    rcases h.within b' hb' with hopened | ⟨around, haround, hinner⟩
    · exact ⟨b, List.mem_cons_self, hopened⟩
    · exact ⟨around, List.mem_cons_of_mem _ haround, hinner⟩

/-- The same, item by item; the items are of another kind than members. -/
theorem Tallies.opens_items {π : Type} {f : π → Option PlacedMember} {ms : List π} {b : Body}
    (h : Tallies module (ms.filterMap fun m => (f m).bind (b.row? module))
      (ms.filterMap fun m => (f m).bind b.opened?) bodies scopes scopeIds rows)
    (hitems : b.items = ms.map f) :
    Tallies module [] [b] (b :: bodies)
      (.binding module b.enclosing (ms.filterMap fun m => (f m).bind (·.declared?))
        (ms.filterMap fun m => (f m).bind (·.aliased?)) :: scopes) (b.scope :: scopeIds) rows := by
  have hfilter {α : Type} (g : PlacedMember → Option α) :
      b.items.filterMap (fun o => o.bind g) = ms.filterMap fun m => (f m).bind g := by
    rw [hitems, List.filterMap_map]
    rfl
  rw [← hfilter, ← hfilter] at h
  rw [← hfilter, ← hfilter]
  exact h.opens

theorem Tallies.opens_members {ms : List PlacedMember} {b : Body}
    (h : Tallies module (ms.filterMap (b.row? module)) (ms.filterMap b.opened?) bodies scopes
      scopeIds rows) (hitems : b.items = ms.map some) :
    Tallies module [] [b] (b :: bodies)
      (.binding module b.enclosing (ms.filterMap (·.declared?)) (ms.filterMap (·.aliased?)) ::
        scopes) (b.scope :: scopeIds) rows :=
  Tallies.opens_items h hitems

/-- A declaration of its own comes first. -/
theorem Tallies.declares (h : Tallies module [] opened bodies scopes scopeIds rows)
    (row : DeclId × Entry) :
    Tallies module [row] opened bodies scopes scopeIds (row :: rows) := by
  refine ⟨h.scopes_eq, h.scopeIds_eq, fun row' => ?_, h.opened_subset, h.inner, h.within⟩
  rw [List.mem_cons, List.mem_singleton, h.mem_rows]
  exact or_congr_right (or_iff_right List.not_mem_nil)

end Tallies

section Placed

variable (module : ModuleId)

mutual

theorem tallies_decl : ∀ (d : PlacedDecl) (around : Body),
    Tallies module (around.row? module (.decl d)).toList (around.opened? (.decl d)).toList
      (d.bodies around) (d.scopes module (around.scope :: around.enclosing)) d.scopeIds
      (d.ids.zip (d.entries module around.owner around.scope))
  | .const _ _, _ | .enum _ _, _ | .annotationDecl _ _, _ => (tallies_nil module).declares _
  | .pathAlias _, _ | .importAlias _, _ => tallies_nil module
  | .struct id body _ ms, around => by
    have h := tallies_members ms (around.nested body (some id) (ms.map some))
    exact (h.opens_members rfl).declares _
  | .interface id body _ _ ms, around => by
    have h := tallies_interfaceMembers ms (around.nested body (some id) (ms.map (·.member?)))
    have hbody := Tallies.opens_items h rfl
    simp only [PlacedInterfaceMember.member?_declared?,
      PlacedInterfaceMember.member?_aliased?] at hbody
    exact hbody.declares _

theorem tallies_member : ∀ (m : PlacedMember) (around : Body),
    Tallies module (around.row? module m).toList (around.opened? m).toList (m.bodies around)
      (m.scopes module (around.scope :: around.enclosing)) m.scopeIds
      (m.ids.zip (m.entries module around.owner around.scope))
  | .field _, _ => tallies_nil module
  | .union id body _ _ ms, around | .group id body _ ms, around => by
    have h := tallies_members ms (around.nested body (some id) (ms.map some))
    exact (h.opens_members rfl).declares _
  | .anonymousUnion body _ _ ms, around => by
    have h := tallies_members ms (around.nested body around.owner (ms.map some))
    exact h.opens_members rfl
  | .decl d, around => tallies_decl d around

theorem tallies_members : ∀ (ms : List PlacedMember) (around : Body),
    Tallies module (ms.filterMap (around.row? module)) (ms.filterMap around.opened?)
      (placedMemberBodies around ms) (memberScopes module (around.scope :: around.enclosing) ms)
      (memberScopeIds ms) ((memberIds ms).zip (memberEntries module around.owner around.scope ms))
  | [], _ => tallies_nil module
  | m :: ms, around => by
    have hlength := length_entries_placedMember module m around.owner around.scope
    rw [memberIds, memberEntries, List.zip_append hlength.symm, filterMap_cons_toList,
      filterMap_cons_toList]
    exact (tallies_member m around).append (tallies_members ms around)

theorem tallies_interfaceMember : ∀ (m : PlacedInterfaceMember) (around : Body),
    Tallies module (m.member?.bind (around.row? module)).toList
      (m.member?.bind around.opened?).toList (m.bodies around)
      (m.scopes module (around.scope :: around.enclosing)) m.scopeIds
      (m.ids.zip (m.entries module around.owner around.scope))
  | .method _, _ => tallies_nil module
  | .decl d, around => tallies_decl d around

theorem tallies_interfaceMembers : ∀ (ms : List PlacedInterfaceMember) (around : Body),
    Tallies module (ms.filterMap fun m => m.member?.bind (around.row? module))
      (ms.filterMap fun m => m.member?.bind around.opened?) (placedInterfaceMemberBodies around ms)
      (interfaceMemberScopes module (around.scope :: around.enclosing) ms)
      (interfaceMemberScopeIds ms)
      ((interfaceMemberIds ms).zip (interfaceMemberEntries module around.owner around.scope ms))
  | [], _ => tallies_nil module
  | m :: ms, around => by
    have hlength := length_entries_placedInterfaceMember module m around.owner around.scope
    rw [interfaceMemberIds, interfaceMemberEntries, List.zip_append hlength.symm,
      filterMap_cons_toList, filterMap_cons_toList]
    exact (tallies_interfaceMember m around).append (tallies_interfaceMembers ms around)

end

/-! ## Files -/

/-- The body of a file. -/
def Body.ofFile (scope : ScopeId) (ds : List PlacedDecl) : Body :=
  ⟨scope, [], none, ds.map fun d => some (.decl d)⟩

/-- The bodies of a file, its own first. -/
def fileBodies (scope : ScopeId) (ds : List PlacedDecl) : List Body :=
  .ofFile scope ds :: ds.flatMap (PlacedDecl.bodies (.ofFile scope ds))

/-- The scopes and entries of a file tally with its bodies. -/
theorem tallies_file (scope : ScopeId) (ds : List PlacedDecl) :
    Tallies module [] [.ofFile scope ds] (fileBodies scope ds) (fileScopes module scope ds)
      (scope :: ds.flatMap PlacedDecl.scopeIds)
      ((ds.flatMap PlacedDecl.ids).zip (fileEntries module scope ds)) := by
  have hdecls (b : Body) : ∀ ds : List PlacedDecl,
      Tallies module (ds.filterMap fun d => b.row? module (.decl d))
        (ds.filterMap fun d => b.opened? (.decl d)) (ds.flatMap (PlacedDecl.bodies b))
        (ds.flatMap fun d => d.scopes module (b.scope :: b.enclosing))
        (ds.flatMap PlacedDecl.scopeIds)
        ((ds.flatMap PlacedDecl.ids).zip
          (ds.flatMap fun d => d.entries module b.owner b.scope)) := by
    intro ds
    induction ds with
    | nil => exact tallies_nil module
    | cons d ds ih =>
      have hlength := length_entries_placedDecl module d b.owner b.scope
      simp only [List.flatMap_cons]
      rw [List.zip_append hlength.symm, filterMap_cons_toList, filterMap_cons_toList]
      exact (tallies_decl module d b).append ih
  exact Tallies.opens_items (f := fun d => some (.decl d)) (hdecls (.ofFile scope ds) ds) rfl

end Placed

end SchemaLang
