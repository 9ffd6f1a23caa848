import SchemaLang.Proofs.Naming.Lookup
import SchemaLang.Proofs.Reordering.States

/-!
# What declarations are nested in

Ids are given in the order in which declarations begin.  A declaration comes after what it is nested
in, and both are of one module: `Loaded.WellPlaced.nested_of_link`.
-/

namespace SchemaLang

/-- The entry `e`, whose id is one of `ids`, is of the module and is nested in `parent`, or in one
of `ids` before it. -/
structure Entry.Inside (module : ModuleId) (parent : Option DeclId) (ids : List DeclId) (e : Entry)
    (id : DeclId) : Prop where
  module : e.module = module
  mem : id ∈ ids
  parent : e.parent = parent ∨ ∃ p ∈ ids, e.parent = some p ∧ p < id

section Entries

variable {module : ModuleId} {parent : Option DeclId} {e : Entry} {id : DeclId}
  {ids ids' : List DeclId} {es es' : List Entry}

theorem Entry.Inside.mono (h : e.Inside module parent ids id) (hids : ids ⊆ ids') :
    e.Inside module parent ids' id :=
  ⟨h.module, hids h.mem, h.parent.imp_right fun ⟨p, hp, hparent⟩ => ⟨p, hids hp, hparent⟩⟩

theorem inside_append (h : List.Forall₂ (Entry.Inside module parent ids) es ids)
    (h' : List.Forall₂ (Entry.Inside module parent ids') es' ids') :
    List.Forall₂ (Entry.Inside module parent (ids ++ ids')) (es ++ es') (ids ++ ids') :=
  List.rel_append (h.imp fun _ _ he => he.mono (List.subset_append_left _ _))
    (h'.imp fun _ _ he => he.mono (List.subset_append_right _ _))

/-- A declaration before those that are nested in it. -/
theorem inside_cons (h : List.Forall₂ (Entry.Inside module (some id) ids) es ids)
    (hids : ∀ i ∈ ids, id < i) (hmodule : e.module = module) (hparent : e.parent = parent) :
    List.Forall₂ (Entry.Inside module parent (id :: ids)) (e :: es) (id :: ids) := by
  refine .cons ⟨hmodule, List.mem_cons_self, .inl hparent⟩ (h.imp fun e' i he => ?_)
  refine ⟨he.module, List.mem_cons_of_mem _ he.mem, .inr ?_⟩
  rcases he.parent with hp | ⟨p, hp, hparent, hlt⟩
  · exact ⟨id, List.mem_cons_self, hp, hids i he.mem⟩
  · exact ⟨p, List.mem_cons_of_mem _ hp, hparent, hlt⟩

variable (module)

mutual

theorem inside_decl : ∀ (d : PlacedDecl) (parent : Option DeclId) (home : ScopeId),
    d.ids.Pairwise (· < ·) →
      List.Forall₂ (Entry.Inside module parent d.ids) (d.entries module parent home) d.ids
  | .const _ _, _, _, _ | .enum _ _, _, _, _ | .annotationDecl _ _, _, _, _ =>
    inside_cons .nil nofun rfl rfl
  | .pathAlias _, _, _, _ | .importAlias _, _, _, _ => .nil
  | .struct id body _ ms, _, _, h =>
    have ⟨hid, hms⟩ := List.pairwise_cons.1 h
    inside_cons (inside_members ms (some id) body hms) hid rfl rfl
  | .interface id body _ _ ms, _, _, h =>
    have ⟨hid, hms⟩ := List.pairwise_cons.1 h
    inside_cons (inside_interfaceMembers ms (some id) body hms) hid rfl rfl

theorem inside_member : ∀ (m : PlacedMember) (parent : Option DeclId) (home : ScopeId),
    m.ids.Pairwise (· < ·) →
      List.Forall₂ (Entry.Inside module parent m.ids) (m.entries module parent home) m.ids
  | .field _, _, _, _ => .nil
  | .union id body _ _ ms, _, _, h | .group id body _ ms, _, _, h =>
    have ⟨hid, hms⟩ := List.pairwise_cons.1 h
    inside_cons (inside_members ms (some id) body hms) hid rfl rfl
  | .anonymousUnion body _ _ ms, parent, _, h => inside_members ms parent body h
  | .decl d, parent, home, h => inside_decl d parent home h

theorem inside_members : ∀ (ms : List PlacedMember) (parent : Option DeclId) (home : ScopeId),
    (memberIds ms).Pairwise (· < ·) → List.Forall₂ (Entry.Inside module parent (memberIds ms))
      (memberEntries module parent home ms) (memberIds ms)
  | [], _, _, _ => .nil
  | m :: ms, parent, home, h =>
    have ⟨hm, hms, _⟩ := List.pairwise_append.1 h
    inside_append (inside_member m parent home hm) (inside_members ms parent home hms)

theorem inside_interfaceMember : ∀ (m : PlacedInterfaceMember) (parent : Option DeclId)
    (home : ScopeId), m.ids.Pairwise (· < ·) →
      List.Forall₂ (Entry.Inside module parent m.ids) (m.entries module parent home) m.ids
  | .method _, _, _, _ => .nil
  | .decl d, parent, home, h => inside_decl d parent home h

theorem inside_interfaceMembers : ∀ (ms : List PlacedInterfaceMember) (parent : Option DeclId)
    (home : ScopeId), (interfaceMemberIds ms).Pairwise (· < ·) →
      List.Forall₂ (Entry.Inside module parent (interfaceMemberIds ms))
        (interfaceMemberEntries module parent home ms) (interfaceMemberIds ms)
  | [], _, _, _ => .nil
  | m :: ms, parent, home, h =>
    have ⟨hm, hms, _⟩ := List.pairwise_append.1 h
    inside_append (inside_interfaceMember m parent home hm)
      (inside_interfaceMembers ms parent home hms)

end

theorem inside_file (scope : ScopeId) (ds : List PlacedDecl)
    (h : (ds.flatMap PlacedDecl.ids).Pairwise (· < ·)) :
    List.Forall₂ (Entry.Inside module none (ds.flatMap PlacedDecl.ids))
      (fileEntries module scope ds) (ds.flatMap PlacedDecl.ids) := by
  induction ds with
  | nil => exact .nil
  | cons d ds ih =>
    obtain ⟨hd, hds, -⟩ := List.pairwise_append.1 h
    exact inside_append (inside_decl module d none scope hd) (ih hds)

end Entries

namespace Loaded

variable {l : Loaded} {is : List ImportPath}

/-- The ids of a module increase. -/
theorem WellPlaced.pairwise_ids (h : l.WellPlaced is) {x : LoadedModule} (hx : x ∈ l.modules) :
    (x.decls.flatMap PlacedDecl.ids).Pairwise (· < ·) := by
  have hall := List.pairwise_lt_range (n := l.entries.size)
  rw [← h.ids] at hall
  exact (List.pairwise_flatMap.1 hall).1 x (Array.mem_toList_iff.2 hx)

/-- A declaration comes after what it is nested in, which is of the same module. -/
theorem WellPlaced.parent_lt (h : l.WellPlaced is) {d p : DeclId} {e : Entry}
    (he : l.entries[d]? = some e) (hp : e.parent = some p) :
    p < d ∧ ∃ around, l.entries[p]? = some around ∧ around.module = e.module := by
  -- The module whose tables have the entry.
  have hrow : (e, d) ∈ l.entries.toList.zipIdx := by
    rwa [List.mk_mem_zipIdx_iff_getElem?, Array.getElem?_toList]
  rw [h.zipIdx_entries] at hrow
  obtain ⟨⟨x, i⟩, hx, hrow⟩ := List.mem_flatMap.1 hrow
  have hrows := inside_file i x.scope x.decls
    (h.pairwise_ids (Array.mem_toList_iff.1 (List.fst_mem_of_mem_zipIdx hx)))
  obtain ⟨hlength, hinside⟩ := List.forall₂_iff_zip.1 hrows
  rcases (hinside hrow).parent with hparent | ⟨p', hp', hparent, hlt⟩
  · exact absurd (hparent.symm.trans hp) nofun
  · obtain rfl : p' = p := Option.some.inj (hparent.symm.trans hp)
    rw [← List.map_snd_zip hlength.ge] at hp'
    obtain ⟨⟨around, p⟩, haround, rfl⟩ := List.mem_map.1 hp'
    have haround' : (around, p) ∈ l.entries.toList.zipIdx := by
      rw [h.zipIdx_entries]
      exact List.mem_flatMap.2 ⟨(x, i), hx, haround⟩
    rw [List.mk_mem_zipIdx_iff_getElem?, Array.getElem?_toList] at haround'
    exact ⟨hlt, around, haround', (hinside haround).module.trans (hinside hrow).module.symm⟩

/-- What is nested in a declaration comes after it. -/
theorem WellPlaced.nested_of_link (h : l.WellPlaced is) {s : Schema} (hlink : l.link = .ok s) :
    s.Nested := by
  intro d info hd p hp
  obtain ⟨-, hdecls⟩ := link_ok hlink
  rw [hdecls, Array.getElem?_map] at hd
  obtain ⟨e, he, rfl⟩ := Option.map_eq_some_iff.1 hd
  obtain ⟨hlt, around, haround, hmodule⟩ := h.parent_lt he hp
  refine ⟨hlt, around.info, ?_, hmodule⟩
  rw [hdecls, Array.getElem?_map, haround]
  rfl

end Loaded

end SchemaLang
