import SchemaLang.Proofs.Linking.Nodes
import SchemaLang.Proofs.Typing.Fits

/-!
# Types in the entries

A struct literal and an annotation are evaluated for types that are resolved again from the entry of
the declaration, in the scope where the declaration stands.  These are the types that its own
linking gave: `entriesTyped_linkDecl`, and for all modules `entry_typed`.
-/

namespace SchemaLang

/-- A step in a row with others gives what each gives by itself. -/
theorem forall₂_of_mapM {α β : Type} {f : α → Link β} {R : α → β → Prop} {as : List α} {bs : List β}
    (h : as.mapM f = .ok bs) (hf : ∀ a ∈ as, ∀ b, f a = .ok b → R a b) : List.Forall₂ R as bs := by
  induction as generalizing bs with
  | nil =>
    obtain rfl := Except.ok.inj h
    exact .nil
  | cons a as ih =>
    rw [List.mapM_cons] at h
    obtain ⟨b, hb, h⟩ := bind_eq_ok.1 h
    obtain ⟨bs, hbs, h⟩ := bind_eq_ok.1 h
    obtain rfl := Except.ok.inj h
    obtain ⟨ha, has⟩ := List.forall_mem_cons.1 hf
    exact .cons (ha b hb) (ih hbs has)

namespace Loaded

variable {l : Loaded}

/-! ## Slots -/

variable (l) in
/-- A slot has the name of a field and the type that the field's own resolves to. -/
def IsSlot (field : FieldEntry) (slot : String × SchemaType) : Prop :=
  field.name = slot.1 ∧ l.fieldType field.content = .ok slot.2

mutual

theorem isSlot_linkMember : ∀ (m : PlacedMember) {m' : LinkedMember} {scope : ScopeId},
    l.linkMember scope m = .ok m' → List.Forall₂ l.IsSlot (m.fieldEntries scope) m'.slots
  | .field f, _, scope, h => by
    obtain ⟨f', hf, rfl⟩ := map_eq_ok.1 h
    obtain ⟨t, ht, hf⟩ := bind_eq_ok.1 hf
    obtain ⟨v, -, hf⟩ := bind_eq_ok.1 hf
    obtain ⟨as, -, hf⟩ := bind_eq_ok.1 hf
    obtain rfl := Except.ok.inj hf
    exact .cons ⟨rfl, ht⟩ .nil
  | .union id body head ordinal ms, _, scope, h => by
    rw [linkMember] at h
    obtain ⟨head', hhead, h⟩ := bind_eq_ok.1 h
    obtain ⟨ms', -, h⟩ := bind_eq_ok.1 h
    obtain rfl := Except.ok.inj h
    obtain ⟨rfl, hname⟩ := linkHead_ok hhead
    exact .cons ⟨hname.symm, rfl⟩ .nil
  | .anonymousUnion body span annotations ms, _, scope, h => by
    rw [linkMember] at h
    obtain ⟨as, -, h⟩ := bind_eq_ok.1 h
    obtain ⟨ms', hms, h⟩ := bind_eq_ok.1 h
    obtain rfl := Except.ok.inj h
    exact isSlot_linkMembers ms hms
  | .group id body head ms, _, scope, h => by
    rw [linkMember] at h
    obtain ⟨head', hhead, h⟩ := bind_eq_ok.1 h
    obtain ⟨ms', -, h⟩ := bind_eq_ok.1 h
    obtain rfl := Except.ok.inj h
    obtain ⟨rfl, hname⟩ := linkHead_ok hhead
    exact .cons ⟨hname.symm, rfl⟩ .nil
  | .decl d, _, scope, h => by
    rw [linkMember] at h
    obtain ⟨d', -, rfl⟩ := map_eq_ok.1 h
    exact .nil

theorem isSlot_linkMembers : ∀ (ms : List PlacedMember) {ms' : List LinkedMember} {scope : ScopeId},
    l.linkMembers scope ms = .ok ms' →
      List.Forall₂ l.IsSlot (memberFieldEntries scope ms) (memberSlots ms')
  | [], _, scope, h => by
    rw [linkMembers] at h
    obtain rfl := Except.ok.inj h
    exact .nil
  | m :: ms, _, scope, h => by
    rw [linkMembers] at h
    obtain ⟨m', hm, h⟩ := bind_eq_ok.1 h
    obtain ⟨ms', hms, h⟩ := bind_eq_ok.1 h
    obtain rfl := Except.ok.inj h
    exact List.rel_append (isSlot_linkMember m hm) (isSlot_linkMembers ms hms)

end

/-- The first field of a name leads to the first slot of the name. -/
theorem lookup_slot {fields : List FieldEntry} {slots : List (String × SchemaType)}
    (h : List.Forall₂ l.IsSlot fields slots) {name : String} {field : FieldEntry} {t : SchemaType}
    (hfield : fields.find? (·.name = name) = some field)
    (ht : l.fieldType field.content = .ok t) : slots.lookup name = some t := by
  induction h with
  | nil => cases hfield
  | @cons f slot fields slots hslot _ ih =>
    obtain ⟨fieldName, type⟩ := slot
    obtain ⟨rfl, htype⟩ := hslot
    by_cases hname : f.name = name
    · rw [List.find?_cons_of_pos (by simpa using hname)] at hfield
      obtain rfl := Option.some.inj hfield
      obtain rfl := Except.ok.inj (htype.symm.trans ht)
      rw [hname]
      exact List.lookup_cons_self
    · rw [List.find?_cons_of_neg (by simpa using hname)] at hfield
      rw [List.lookup_cons, beq_false_of_ne (Ne.symm hname)]
      exact ih hfield

/-! ## Entries -/

/-- The types that an entry holds resolve to those of the declaration with its id, which is found
among the nodes or the bodies. -/
structure EntryTyped (l : Loaded) (ns : List Node) (bs : List (DeclId × List LinkedMember))
    (id : DeclId) (e : Entry) : Prop where
  fields : ∀ fields, e.content.fields? = some fields →
    ∃ ms, (id, ms) ∈ bs ∧ List.Forall₂ l.IsSlot fields (memberSlots ms)
  annotationType : ∀ targets type, e.content = .annotationDecl targets type →
    ∃ d : LinkedAnnotationDecl, (∃ n ∈ ns, n.content = .annotationDecl d) ∧ d.id = id ∧
      l.resolveType e.home type = .ok d.type

/-- The entries with these ids are typed. -/
abbrev EntriesTyped (l : Loaded) (ns : List Node) (bs : List (DeclId × List LinkedMember)) :
    List DeclId → List Entry → Prop :=
  List.Forall₂ (l.EntryTyped ns bs)

variable {ns ns' : List Node} {bs bs' : List (DeclId × List LinkedMember)}

theorem EntryTyped.mono {id : DeclId} {e : Entry} (h : l.EntryTyped ns bs id e) (hns : ns ⊆ ns')
    (hbs : bs ⊆ bs') : l.EntryTyped ns' bs' id e := by
  constructor
  · intro fields hfields
    obtain ⟨ms, hms, hslots⟩ := h.fields fields hfields
    exact ⟨ms, hbs hms, hslots⟩
  · intro targets type hcontent
    obtain ⟨d, ⟨n, hn, hd⟩, hid, htype⟩ := h.annotationType targets type hcontent
    exact ⟨d, ⟨n, hns hn, hd⟩, hid, htype⟩

theorem EntriesTyped.mono {ids : List DeclId} {es : List Entry} (h : l.EntriesTyped ns bs ids es)
    (hns : ns ⊆ ns') (hbs : bs ⊆ bs') : l.EntriesTyped ns' bs' ids es :=
  h.imp fun _ _ he => he.mono hns hbs

theorem EntriesTyped.append {ids ids' : List DeclId} {es es' : List Entry}
    (h : l.EntriesTyped ns bs ids es) (h' : l.EntriesTyped ns' bs' ids' es') :
    l.EntriesTyped (ns ++ ns') (bs ++ bs') (ids ++ ids') (es ++ es') :=
  List.rel_append (h.mono (List.subset_append_left _ _) (List.subset_append_left _ _))
    (h'.mono (List.subset_append_right _ _) (List.subset_append_right _ _))

/-- An entry of what holds no types itself. -/
theorem entryTyped_of_untyped {id : DeclId} {e : Entry} (hfields : e.content.fields? = none)
    (htype : ∀ targets type, e.content ≠ .annotationDecl targets type) :
    l.EntryTyped ns bs id e :=
  ⟨fun _ h => absurd (hfields.symm.trans h) nofun, fun targets type h =>
    absurd h (htype targets type)⟩

/-- An entry of what has a body, before those of its members. -/
theorem EntriesTyped.cons_body {ids : List DeclId} {es : List Entry} {id : DeclId} {e : Entry}
    {n : Node} {ms : List LinkedMember} {fields : List FieldEntry}
    (h : l.EntriesTyped ns bs ids es) (hfields : e.content.fields? = some fields)
    (hslots : List.Forall₂ l.IsSlot fields (memberSlots ms)) :
    l.EntriesTyped (n :: ns) ((id, ms) :: bs) (id :: ids) (e :: es) := by
  refine .cons ⟨fun fields' h' => ?_, fun targets type hcontent => ?_⟩
    (h.mono (List.subset_cons_self _ _) (List.subset_cons_self _ _))
  · obtain rfl := Option.some.inj (hfields.symm.trans h')
    exact ⟨ms, List.mem_cons_self, hslots⟩
  · rw [hcontent] at hfields
    cases hfields

section Linked

variable (module : ModuleId)

mutual

theorem entriesTyped_linkDecl : ∀ (d : PlacedDecl) {d' : LinkedDecl} {scope : ScopeId},
    l.linkDecl scope d = .ok d' → ∀ parent,
      l.EntriesTyped (d'.nodes module parent) d'.bodies d.ids (d.entries module parent scope)
  | .const id d, _, scope, h, parent => .cons (entryTyped_of_untyped rfl nofun) .nil
  | .struct id body head ms, _, scope, h, parent => by
    rw [linkDecl] at h
    obtain ⟨head', hhead, h⟩ := bind_eq_ok.1 h
    obtain ⟨ms', hms, h⟩ := bind_eq_ok.1 h
    obtain rfl := Except.ok.inj h
    obtain ⟨rfl, -⟩ := linkHead_ok hhead
    exact (entriesTyped_linkMembers ms hms _).cons_body rfl (isSlot_linkMembers ms hms)
  | .enum id d, _, scope, h, parent => .cons (entryTyped_of_untyped rfl nofun) .nil
  | .interface id body head bases ms, _, scope, h, parent => by
    rw [linkDecl] at h
    obtain ⟨bases', -, h⟩ := bind_eq_ok.1 h
    obtain ⟨head', hhead, h⟩ := bind_eq_ok.1 h
    obtain ⟨⟨methods, nested⟩, hms, h⟩ := bind_eq_ok.1 h
    obtain ⟨effective, -, h⟩ := bind_eq_ok.1 h
    obtain rfl := Except.ok.inj h
    obtain ⟨rfl, -⟩ := linkHead_ok hhead
    have hnested := entriesTyped_linkInterfaceMembers ms hms (some head'.id)
    exact .cons (entryTyped_of_untyped rfl nofun)
      (hnested.mono (List.subset_cons_self _ _) (List.Subset.refl _))
  | .annotationDecl id d, _, scope, h, parent => by
    obtain ⟨d', hd, rfl⟩ := map_eq_ok.1 h
    obtain ⟨hid, -, -⟩ := linkAnnotationDecl_ok hd
    obtain ⟨t, ht, hd⟩ := bind_eq_ok.1 hd
    obtain ⟨as, -, hd⟩ := bind_eq_ok.1 hd
    obtain rfl := Except.ok.inj hd
    refine .cons ⟨nofun, fun targets type hcontent => ?_⟩ .nil
    obtain ⟨-, rfl⟩ := EntryContent.annotationDecl.inj hcontent
    exact ⟨_, ⟨_, List.mem_cons_self, rfl⟩, hid, ht⟩
  | .pathAlias a, _, scope, h, parent => .nil
  | .importAlias a, _, scope, h, parent => .nil

theorem entriesTyped_linkMember : ∀ (m : PlacedMember) {m' : LinkedMember} {scope : ScopeId},
    l.linkMember scope m = .ok m' → ∀ parent,
      l.EntriesTyped (m'.nodes module parent) m'.bodies m.ids (m.entries module parent scope)
  | .field f, _, scope, h, parent => .nil
  | .union id body head ordinal ms, _, scope, h, parent => by
    rw [linkMember] at h
    obtain ⟨head', hhead, h⟩ := bind_eq_ok.1 h
    obtain ⟨ms', hms, h⟩ := bind_eq_ok.1 h
    obtain rfl := Except.ok.inj h
    obtain ⟨rfl, -⟩ := linkHead_ok hhead
    exact (entriesTyped_linkMembers ms hms _).cons_body rfl (isSlot_linkMembers ms hms)
  | .anonymousUnion body span annotations ms, _, scope, h, parent => by
    rw [linkMember] at h
    obtain ⟨as, -, h⟩ := bind_eq_ok.1 h
    obtain ⟨ms', hms, h⟩ := bind_eq_ok.1 h
    obtain rfl := Except.ok.inj h
    exact entriesTyped_linkMembers ms hms parent
  | .group id body head ms, _, scope, h, parent => by
    rw [linkMember] at h
    obtain ⟨head', hhead, h⟩ := bind_eq_ok.1 h
    obtain ⟨ms', hms, h⟩ := bind_eq_ok.1 h
    obtain rfl := Except.ok.inj h
    obtain ⟨rfl, -⟩ := linkHead_ok hhead
    exact (entriesTyped_linkMembers ms hms _).cons_body rfl (isSlot_linkMembers ms hms)
  | .decl d, _, scope, h, parent => by
    rw [linkMember] at h
    obtain ⟨d', hd, rfl⟩ := map_eq_ok.1 h
    exact entriesTyped_linkDecl d hd parent

theorem entriesTyped_linkMembers : ∀ (ms : List PlacedMember) {ms' : List LinkedMember}
    {scope : ScopeId}, l.linkMembers scope ms = .ok ms' → ∀ parent,
      l.EntriesTyped (memberNodes module parent ms') (memberBodies ms') (memberIds ms)
        (memberEntries module parent scope ms)
  | [], _, scope, h, parent => .nil
  | m :: ms, _, scope, h, parent => by
    rw [linkMembers] at h
    obtain ⟨m', hm, h⟩ := bind_eq_ok.1 h
    obtain ⟨ms', hms, h⟩ := bind_eq_ok.1 h
    obtain rfl := Except.ok.inj h
    exact (entriesTyped_linkMember m hm parent).append (entriesTyped_linkMembers ms hms parent)

theorem entriesTyped_linkInterfaceMembers : ∀ (ms : List PlacedInterfaceMember)
    {items : List LinkedMethod × List LinkedDecl} {scope : ScopeId},
    l.linkInterfaceMembers scope ms = .ok items → ∀ parent,
      l.EntriesTyped (declNodes module parent items.2) (declBodies items.2) (interfaceMemberIds ms)
        (interfaceMemberEntries module parent scope ms)
  | [], _, scope, h, parent => .nil
  | .method m :: ms, _, scope, h, parent => by
    rw [linkInterfaceMembers, linkInterfaceMember] at h
    obtain ⟨item, hm, h⟩ := bind_eq_ok.1 h
    obtain ⟨items, hms, h⟩ := bind_eq_ok.1 h
    obtain ⟨m', -, rfl⟩ := map_eq_ok.1 hm
    obtain rfl := Except.ok.inj h
    exact entriesTyped_linkInterfaceMembers ms hms parent
  | .decl d :: ms, _, scope, h, parent => by
    rw [linkInterfaceMembers, linkInterfaceMember] at h
    obtain ⟨item, hd, h⟩ := bind_eq_ok.1 h
    obtain ⟨items, hms, h⟩ := bind_eq_ok.1 h
    obtain ⟨d', hd', rfl⟩ := map_eq_ok.1 hd
    obtain rfl := Except.ok.inj h
    exact (entriesTyped_linkDecl d hd' parent).append
      (entriesTyped_linkInterfaceMembers ms hms parent)

end

end Linked

/-! ## All modules -/

/-- Lists that are related piece by piece. -/
theorem forall₂_flatMap_zipIdx {α β γ : Type} {R : β → γ → Prop} {f : α → List β}
    {g : α × Nat → List γ} {as : List α} :
    ∀ k, (∀ x ∈ as.zipIdx k, List.Forall₂ R (f x.1) (g x)) →
      List.Forall₂ R (as.flatMap f) ((as.zipIdx k).flatMap g) := by
  induction as with
  | nil => exact fun _ _ => .nil
  | cons a as ih =>
    intro k h
    rw [List.zipIdx_cons] at h ⊢
    obtain ⟨ha, has⟩ := List.forall_mem_cons.1 h
    exact List.rel_append ha (ih (k + 1) has)

theorem entriesTyped_linkDecls {scope : ScopeId} {ds : List PlacedDecl} {ds' : List LinkedDecl}
    (h : List.Forall₂ (fun d d' => l.linkDecl scope d = .ok d') ds ds') (module : ModuleId) :
    l.EntriesTyped (ds'.flatMap (LinkedDecl.nodes module none)) (ds'.flatMap LinkedDecl.bodies)
      (ds.flatMap PlacedDecl.ids) (fileEntries module scope ds) := by
  induction h with
  | nil => exact .nil
  | cons hd _ ih => exact (entriesTyped_linkDecl module _ hd none).append ih

theorem entriesTyped_linkModule {x : LoadedModule} {m : LinkedModule} (h : l.linkModule x = .ok m)
    (module : ModuleId) :
    l.EntriesTyped (m.decls.flatMap (LinkedDecl.nodes module none))
      (m.decls.flatMap LinkedDecl.bodies) (x.decls.flatMap PlacedDecl.ids)
      (fileEntries module x.scope x.decls) := by
  obtain ⟨as, -, h⟩ := bind_eq_ok.1 h
  obtain ⟨ds, hds, h⟩ := bind_eq_ok.1 h
  obtain rfl := Except.ok.inj h
  exact entriesTyped_linkDecls (forall₂_of_mapM hds fun _ _ _ hd => hd) module

/-- The types in the entry of a declaration resolve to those that its linking gave. -/
theorem entry_typed {is : List ImportPath} (hl : l.WellPlaced is) {s : Schema}
    (h : l.link = .ok s) {id : DeclId} {e : Entry} (he : l.entries[id]? = some e) :
    l.EntryTyped s.nodes s.bodies id e := by
  have hlinked : List.Forall₂ (fun x m => l.linkModule x = .ok m) l.modules.toList s.modules :=
    forall₂_of_mapM (link_ok h).1 fun _ _ _ hx => hx
  have hmodule : ∀ y ∈ l.modules.toList.zipIdx, l.EntriesTyped s.nodes s.bodies
      (y.1.decls.flatMap PlacedDecl.ids) (fileEntries y.2 y.1.scope y.1.decls) := by
    rintro ⟨x, k⟩ hx
    obtain ⟨hk, hx⟩ := List.mem_zipIdx' hx
    have hk' : k < s.modules.length := Nat.lt_of_lt_of_eq hk hlinked.length_eq
    have hm := hlinked.get hk hk'
    rw [List.get_eq_getElem, ← hx] at hm
    have hmem : (s.modules[k], k) ∈ s.modules.zipIdx := by
      rw [List.mem_zipIdx_iff_getElem?]
      exact List.getElem?_eq_getElem hk'
    refine (entriesTyped_linkModule hm k).mono (fun n hn => ?_) fun b hb => ?_
    · exact List.mem_flatMap.2 ⟨_, hmem, hn⟩
    · exact List.mem_flatMap.2 ⟨_, List.getElem_mem _, hb⟩
  have hall : l.EntriesTyped s.nodes s.bodies
      (l.modules.toList.flatMap fun x => x.decls.flatMap PlacedDecl.ids)
      (l.modules.toList.zipIdx.flatMap fun y => fileEntries y.2 y.1.scope y.1.decls) :=
    forall₂_flatMap_zipIdx 0 hmodule
  rw [hl.ids, ← hl.entries] at hall
  rw [← Array.getElem?_toList] at he
  obtain ⟨hid, rfl⟩ := List.getElem?_eq_some_iff.1 he
  have hentry := hall.get (hall.length_eq ▸ hid) hid
  rwa [List.get_eq_getElem, List.getElem_range] at hentry

end Loaded

end SchemaLang
