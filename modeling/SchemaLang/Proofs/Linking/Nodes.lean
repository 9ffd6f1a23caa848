import SchemaLang.Proofs.Linking.Lookup

/-!
# Nodes and entries

Linking a placed declaration gives nodes with its ids, in the same order, and what the entry of a
node says of it holds of the node: `outlines_linkDecl`.  `outlines_link` says so of all modules.
-/

namespace SchemaLang

/-! ## Outlines -/

/-- What can be named inside a declaration from elsewhere. -/
inductive Inside where
  | enum (enumerants : List (String × Nat))
  | interface (methods : List (String × Nat))
  | annotationDecl (targets : List Target)
  | nothing

/-- What can be named inside the declaration of an entry. -/
def EntryContent.inside : EntryContent → Inside
  | .enum enumerants => .enum enumerants
  | .interface _ _ methods => .interface methods
  | .annotationDecl targets _ => .annotationDecl targets
  | .const | .struct _ _ | .union _ _ | .group _ _ => .nothing

/-- What can be named inside a node. -/
def LinkedNode.inside : LinkedNode → Inside
  | .enum d => .enum (d.enumerants.map fun e => (e.name, e.ordinal))
  | .interface _ methods => .interface (methods.map fun m => (m.name, m.ordinal))
  | .annotationDecl d => .annotationDecl d.targets
  | .const _ | .struct _ | .union _ | .group _ => .nothing

namespace LinkedNode

variable {n : LinkedNode}

theorem eq_enum_of_inside {enumerants : List (String × Nat)}
    (h : n.inside = .enum enumerants) :
    ∃ d : LinkedEnum, n = .enum d ∧
      d.enumerants.map (fun e => (e.name, e.ordinal)) = enumerants := by
  cases n with
  | enum d => exact ⟨d, rfl, Inside.enum.inj h⟩
  | const | struct | interface | annotationDecl | union | group => cases h

theorem eq_interface_of_inside {own : List (String × Nat)} (h : n.inside = .interface own) :
    ∃ head methods, n = .interface head methods ∧
      methods.map (fun m => (m.name, m.ordinal)) = own := by
  cases n with
  | interface head methods => exact ⟨head, methods, rfl, Inside.interface.inj h⟩
  | const | struct | enum | annotationDecl | union | group => cases h

theorem eq_annotationDecl_of_inside {targets : List Target}
    (h : n.inside = .annotationDecl targets) :
    ∃ d : LinkedAnnotationDecl, n = .annotationDecl d ∧ d.targets = targets := by
  cases n with
  | annotationDecl d => exact ⟨d, rfl, Inside.annotationDecl.inj h⟩
  | const | struct | enum | interface | union | group => cases h

end LinkedNode

/-- The nodes have these ids, and each is what its entry says. -/
structure Outlines (ids : List DeclId) (es : List Entry) (ns : List Node) : Prop where
  ids : ns.map (fun n => n.content.id) = ids
  infos : ns.map Node.info = es.map Entry.info
  insides : ns.map (fun n => n.content.inside) = es.map fun e => e.content.inside

theorem outlines_nil : Outlines [] [] [] := ⟨rfl, rfl, rfl⟩

theorem Outlines.append {ids ids' : List DeclId} {es es' : List Entry} {ns ns' : List Node}
    (h : Outlines ids es ns) (h' : Outlines ids' es' ns') :
    Outlines (ids ++ ids') (es ++ es') (ns ++ ns') := by
  constructor
  · rw [List.map_append, h.ids, h'.ids]
  · rw [List.map_append, List.map_append, h.infos, h'.infos]
  · rw [List.map_append, List.map_append, h.insides, h'.insides]

theorem Outlines.cons {id : DeclId} {ids : List DeclId} {e : Entry} {es : List Entry} {n : Node}
    {ns : List Node} (hid : n.content.id = id) (hinfo : n.info = e.info)
    (hinside : n.content.inside = e.content.inside) (h : Outlines ids es ns) :
    Outlines (id :: ids) (e :: es) (n :: ns) := by
  constructor
  · rw [List.map_cons, hid, h.ids]
  · rw [List.map_cons, List.map_cons, hinfo, h.infos]
  · rw [List.map_cons, List.map_cons, hinside, h.insides]

/-- The node by the number of an entry is what the entry says. -/
theorem Outlines.node {es : List Entry} {ns : List Node}
    (h : Outlines (List.range es.length) es ns) {id : DeclId} {e : Entry} (he : es[id]? = some e) :
    ∃ n ∈ ns, n.content.id = id ∧ n.info = e.info ∧ n.content.inside = e.content.inside := by
  obtain ⟨hid, -⟩ := List.getElem?_eq_some_iff.1 he
  have hids := congrArg (·[id]?) h.ids
  have hinfos := congrArg (·[id]?) h.infos
  have hinsides := congrArg (·[id]?) h.insides
  simp only [List.getElem?_map, he, Option.map_some, List.getElem?_range hid]
    at hids hinfos hinsides
  obtain ⟨n, hn, hinfo⟩ := Option.map_eq_some_iff.1 hinfos
  rw [hn] at hids hinsides
  exact ⟨n, List.mem_of_getElem? hn, Option.some.inj hids, hinfo, Option.some.inj hinsides⟩

/-! ## Steps that keep names and numbers -/

theorem map_eq_of_mapM {α β γ : Type} {f : α → Link β} {g : β → γ} {g' : α → γ} {as : List α}
    {bs : List β} (h : as.mapM f = .ok bs) (hg : ∀ a ∈ as, ∀ b, f a = .ok b → g b = g' a) :
    bs.map g = as.map g' := by
  induction as generalizing bs with
  | nil =>
    obtain rfl := Except.ok.inj h
    rfl
  | cons a as ih =>
    rw [List.mapM_cons] at h
    obtain ⟨b, hb, h⟩ := bind_eq_ok.1 h
    obtain ⟨bs, hbs, h⟩ := bind_eq_ok.1 h
    obtain rfl := Except.ok.inj h
    obtain ⟨ha, has⟩ := List.forall_mem_cons.1 hg
    rw [List.map_cons, List.map_cons, ha b hb, ih hbs has]

namespace Loaded

variable {l : Loaded} {scope : ScopeId}

theorem linkEnumerant_ok {e : Enumerant} {e' : LinkedEnumerant}
    (h : l.linkEnumerant scope e = .ok e') :
    (e'.name, e'.ordinal) = (e.name.name, e.ordinal.value) := by
  obtain ⟨as, -, h⟩ := bind_eq_ok.1 h
  obtain rfl := Except.ok.inj h
  rfl

theorem linkMethod_ok {m : Method} {m' : LinkedMethod} (h : l.linkMethod scope m = .ok m') :
    (m'.name, m'.ordinal) = (m.name.name, m.ordinal.value) := by
  obtain ⟨rs, -, h⟩ := bind_eq_ok.1 h
  obtain ⟨xs, -, h⟩ := bind_eq_ok.1 h
  obtain ⟨as, -, h⟩ := bind_eq_ok.1 h
  obtain rfl := Except.ok.inj h
  rfl

theorem linkConst_ok {id : DeclId} {d : Const} {d' : LinkedConst}
    (h : l.linkConst scope id d = .ok d') : d'.id = id ∧ d'.name = d.name.name := by
  obtain ⟨t, -, h⟩ := bind_eq_ok.1 h
  obtain ⟨v, -, h⟩ := bind_eq_ok.1 h
  obtain ⟨as, -, h⟩ := bind_eq_ok.1 h
  obtain rfl := Except.ok.inj h
  exact ⟨rfl, rfl⟩

theorem linkEnum_ok {id : DeclId} {d : Enum} {d' : LinkedEnum}
    (h : l.linkEnum scope id d = .ok d') : d'.id = id ∧ d'.name = d.name.name ∧
      d'.enumerants.map (fun e => (e.name, e.ordinal)) =
        d.enumerants.map fun e => (e.name.name, e.ordinal.value) := by
  obtain ⟨es, hes, h⟩ := bind_eq_ok.1 h
  obtain ⟨as, -, h⟩ := bind_eq_ok.1 h
  obtain rfl := Except.ok.inj h
  exact ⟨rfl, rfl, map_eq_of_mapM hes fun e _ e' he => linkEnumerant_ok he⟩

theorem linkAnnotationDecl_ok {id : DeclId} {d : AnnotationDecl} {d' : LinkedAnnotationDecl}
    (h : l.linkAnnotationDecl scope id d = .ok d') :
    d'.id = id ∧ d'.name = d.name.name ∧ d'.targets = d.targets.map Prod.snd := by
  obtain ⟨t, -, h⟩ := bind_eq_ok.1 h
  obtain ⟨as, -, h⟩ := bind_eq_ok.1 h
  obtain rfl := Except.ok.inj h
  exact ⟨rfl, rfl, rfl⟩

theorem linkHead_ok {target : Target} {id : DeclId} {head : Head} {head' : LinkedHead}
    (h : l.linkHead scope target id head = .ok head') :
    head'.id = id ∧ head'.name = head.name.name := by
  obtain ⟨as, -, h⟩ := bind_eq_ok.1 h
  obtain rfl := Except.ok.inj h
  exact ⟨rfl, rfl⟩

theorem linkAlias_ok {a : Alias} {d : LinkedDecl} (h : l.linkAlias scope a = .ok d) :
    ∃ name target, d = .pathAlias name target := by
  obtain ⟨b, -, h⟩ := bind_eq_ok.1 h
  exact ⟨_, _, (Except.ok.inj h).symm⟩

theorem linkImportAlias_ok {a : ImportAlias} {d : LinkedDecl}
    (h : l.linkImportAlias scope a = .ok d) :
    ∃ name module target, d = .importAlias name module target := by
  obtain ⟨module, -, h⟩ := bind_eq_ok.1 h
  dsimp only at h
  split at h
  all_goals
    obtain ⟨b, -, h⟩ := bind_eq_ok.1 h
    exact ⟨_, _, _, (Except.ok.inj h).symm⟩

/-! ## Declarations and members -/

section Outlines

variable (module : ModuleId)

mutual

theorem outlines_linkDecl : ∀ (d : PlacedDecl) {d' : LinkedDecl} {scope : ScopeId},
    l.linkDecl scope d = .ok d' → ∀ parent home,
      Outlines d.ids (d.entries module parent home) (d'.nodes module parent)
  | .const id d, _, scope, h, parent, home => by
    obtain ⟨d', hd, rfl⟩ := map_eq_ok.1 h
    obtain ⟨hid, hname⟩ := linkConst_ok hd
    refine outlines_nil.cons hid ?_ rfl
    exact congrArg (DeclInfo.mk module · parent .const) hname
  | .struct id body head ms, _, scope, h, parent, home => by
    rw [linkDecl] at h
    obtain ⟨head', hhead, h⟩ := bind_eq_ok.1 h
    obtain ⟨ms', hms, h⟩ := bind_eq_ok.1 h
    obtain rfl := Except.ok.inj h
    obtain ⟨hid, hname⟩ := linkHead_ok hhead
    have hmembers := outlines_linkMembers ms hms (some id) body
    rw [LinkedDecl.nodes, hid]
    refine hmembers.cons hid ?_ rfl
    exact congrArg (DeclInfo.mk module · parent .struct) hname
  | .enum id d, _, scope, h, parent, home => by
    obtain ⟨d', hd, rfl⟩ := map_eq_ok.1 h
    obtain ⟨hid, hname, henumerants⟩ := linkEnum_ok hd
    refine outlines_nil.cons hid ?_ (congrArg Inside.enum henumerants)
    exact congrArg (DeclInfo.mk module · parent .enum) hname
  | .interface id body head bases ms, _, scope, h, parent, home => by
    rw [linkDecl] at h
    obtain ⟨bases', -, h⟩ := bind_eq_ok.1 h
    obtain ⟨head', hhead, h⟩ := bind_eq_ok.1 h
    obtain ⟨⟨methods, nested⟩, hms, h⟩ := bind_eq_ok.1 h
    obtain ⟨effective, -, h⟩ := bind_eq_ok.1 h
    obtain rfl := Except.ok.inj h
    obtain ⟨hid, hname⟩ := linkHead_ok hhead
    obtain ⟨hmembers, hmethods⟩ := outlines_linkInterfaceMembers ms hms (some id) body
    rw [LinkedDecl.nodes, hid]
    refine hmembers.cons hid ?_ (congrArg Inside.interface hmethods)
    exact congrArg (DeclInfo.mk module · parent .interface) hname
  | .annotationDecl id d, _, scope, h, parent, home => by
    obtain ⟨d', hd, rfl⟩ := map_eq_ok.1 h
    obtain ⟨hid, hname, htargets⟩ := linkAnnotationDecl_ok hd
    refine outlines_nil.cons hid ?_ (congrArg Inside.annotationDecl htargets)
    exact congrArg (DeclInfo.mk module · parent .annotationDecl) hname
  | .pathAlias a, _, scope, h, parent, home => by
    obtain ⟨name, target, rfl⟩ := linkAlias_ok h
    exact outlines_nil
  | .importAlias a, _, scope, h, parent, home => by
    obtain ⟨name, module, target, rfl⟩ := linkImportAlias_ok h
    exact outlines_nil

theorem outlines_linkMember : ∀ (m : PlacedMember) {m' : LinkedMember} {scope : ScopeId},
    l.linkMember scope m = .ok m' → ∀ parent home,
      Outlines m.ids (m.entries module parent home) (m'.nodes module parent)
  | .field f, _, scope, h, parent, home => by
    obtain ⟨f', -, rfl⟩ := map_eq_ok.1 h
    exact outlines_nil
  | .union id body head ordinal ms, _, scope, h, parent, home => by
    rw [linkMember] at h
    obtain ⟨head', hhead, h⟩ := bind_eq_ok.1 h
    obtain ⟨ms', hms, h⟩ := bind_eq_ok.1 h
    obtain rfl := Except.ok.inj h
    obtain ⟨hid, hname⟩ := linkHead_ok hhead
    have hmembers := outlines_linkMembers ms hms (some id) body
    rw [LinkedMember.nodes, hid]
    refine hmembers.cons hid ?_ rfl
    exact congrArg (DeclInfo.mk module · parent .union) hname
  | .anonymousUnion body span annotations ms, _, scope, h, parent, home => by
    rw [linkMember] at h
    obtain ⟨as, -, h⟩ := bind_eq_ok.1 h
    obtain ⟨ms', hms, h⟩ := bind_eq_ok.1 h
    obtain rfl := Except.ok.inj h
    exact outlines_linkMembers ms hms parent body
  | .group id body head ms, _, scope, h, parent, home => by
    rw [linkMember] at h
    obtain ⟨head', hhead, h⟩ := bind_eq_ok.1 h
    obtain ⟨ms', hms, h⟩ := bind_eq_ok.1 h
    obtain rfl := Except.ok.inj h
    obtain ⟨hid, hname⟩ := linkHead_ok hhead
    have hmembers := outlines_linkMembers ms hms (some id) body
    rw [LinkedMember.nodes, hid]
    refine hmembers.cons hid ?_ rfl
    exact congrArg (DeclInfo.mk module · parent .group) hname
  | .decl d, _, scope, h, parent, home => by
    rw [linkMember] at h
    obtain ⟨d', hd, rfl⟩ := map_eq_ok.1 h
    exact outlines_linkDecl d hd parent home

theorem outlines_linkMembers : ∀ (ms : List PlacedMember) {ms' : List LinkedMember}
    {scope : ScopeId}, l.linkMembers scope ms = .ok ms' → ∀ parent home,
      Outlines (memberIds ms) (memberEntries module parent home ms)
        (memberNodes module parent ms')
  | [], _, scope, h, parent, home => by
    obtain rfl := Except.ok.inj h
    exact outlines_nil
  | m :: ms, _, scope, h, parent, home => by
    rw [linkMembers] at h
    obtain ⟨m', hm, h⟩ := bind_eq_ok.1 h
    obtain ⟨ms', hms, h⟩ := bind_eq_ok.1 h
    obtain rfl := Except.ok.inj h
    exact (outlines_linkMember m hm parent home).append (outlines_linkMembers ms hms parent home)

theorem outlines_linkInterfaceMembers : ∀ (ms : List PlacedInterfaceMember)
    {items : List LinkedMethod × List LinkedDecl} {scope : ScopeId},
    l.linkInterfaceMembers scope ms = .ok items → ∀ parent home,
      Outlines (interfaceMemberIds ms) (interfaceMemberEntries module parent home ms)
        (declNodes module parent items.2) ∧
      items.1.map (fun m => (m.name, m.ordinal)) =
        (ms.filterMap (·.method?)).map fun m => (m.name.name, m.ordinal.value)
  | [], _, scope, h, parent, home => by
    obtain rfl := Except.ok.inj h
    exact ⟨outlines_nil, rfl⟩
  | .method m :: ms, _, scope, h, parent, home => by
    rw [linkInterfaceMembers, linkInterfaceMember] at h
    obtain ⟨item, hm, h⟩ := bind_eq_ok.1 h
    obtain ⟨items, hms, h⟩ := bind_eq_ok.1 h
    obtain ⟨m', hm', rfl⟩ := map_eq_ok.1 hm
    obtain rfl := Except.ok.inj h
    obtain ⟨hmembers, hmethods⟩ := outlines_linkInterfaceMembers ms hms parent home
    exact ⟨hmembers, List.cons_eq_cons.2 ⟨linkMethod_ok hm', hmethods⟩⟩
  | .decl d :: ms, _, scope, h, parent, home => by
    rw [linkInterfaceMembers, linkInterfaceMember] at h
    obtain ⟨item, hd, h⟩ := bind_eq_ok.1 h
    obtain ⟨items, hms, h⟩ := bind_eq_ok.1 h
    obtain ⟨d', hd', rfl⟩ := map_eq_ok.1 hd
    obtain rfl := Except.ok.inj h
    obtain ⟨hmembers, hmethods⟩ := outlines_linkInterfaceMembers ms hms parent home
    exact ⟨(outlines_linkDecl d hd' parent home).append hmembers, hmethods⟩

end

end Outlines

/-! ## Modules -/

/-- Steps in a row, each of which outlines some entries, outline the entries of all. -/
theorem outlines_mapM {α β : Type} {f : α → Link β} {ids : α → List DeclId}
    {es : α × Nat → List Entry} {ns : β × Nat → List Node} {as : List α} {bs : List β}
    (h : as.mapM f = .ok bs)
    (hf : ∀ a ∈ as, ∀ b, f a = .ok b → ∀ k, Outlines (ids a) (es (a, k)) (ns (b, k))) :
    ∀ k, Outlines (as.flatMap ids) ((as.zipIdx k).flatMap es) ((bs.zipIdx k).flatMap ns) := by
  induction as generalizing bs with
  | nil =>
    obtain rfl := Except.ok.inj h
    exact fun _ => outlines_nil
  | cons a as ih =>
    intro k
    rw [List.mapM_cons] at h
    obtain ⟨b, hb, h⟩ := bind_eq_ok.1 h
    obtain ⟨bs, hbs, h⟩ := bind_eq_ok.1 h
    obtain rfl := Except.ok.inj h
    obtain ⟨ha, has⟩ := List.forall_mem_cons.1 hf
    rw [List.zipIdx_cons, List.zipIdx_cons]
    exact (ha b hb k).append (ih hbs has (k + 1))

theorem flatMap_zipIdx_fst {α β : Type} (f : α → List β) (as : List α) :
    (as.zipIdx.flatMap fun x => f x.1) = as.flatMap f := by
  rw [← List.flatMap_map Prod.fst f, List.zipIdx_map_fst]

theorem outlines_linkModule {x : LoadedModule} {m : LinkedModule} (h : l.linkModule x = .ok m)
    (module : ModuleId) :
    Outlines (x.decls.flatMap PlacedDecl.ids) (fileEntries module x.scope x.decls)
      (m.decls.flatMap (LinkedDecl.nodes module none)) := by
  obtain ⟨as, -, h⟩ := bind_eq_ok.1 h
  obtain ⟨ds, hds, h⟩ := bind_eq_ok.1 h
  obtain rfl := Except.ok.inj h
  have houtlines : Outlines (x.decls.flatMap PlacedDecl.ids)
      (x.decls.zipIdx.flatMap fun y => y.1.entries module none x.scope)
      (ds.zipIdx.flatMap fun y => y.1.nodes module none) :=
    outlines_mapM hds (fun d _ _ hd _ => outlines_linkDecl module d hd none x.scope) 0
  rwa [flatMap_zipIdx_fst, flatMap_zipIdx_fst] at houtlines

theorem linkModule_path {x : LoadedModule} {m : LinkedModule} (h : l.linkModule x = .ok m) :
    m.path = x.path := by
  obtain ⟨as, -, h⟩ := bind_eq_ok.1 h
  obtain ⟨ds, hds, h⟩ := bind_eq_ok.1 h
  obtain rfl := Except.ok.inj h
  rfl

/-- The schema has the modules and the entries that were loaded. -/
theorem link_ok {s : Schema} (h : l.link = .ok s) :
    l.modules.toList.mapM l.linkModule = .ok s.modules ∧ s.decls = l.entries.map Entry.info := by
  obtain ⟨ms, hms, h⟩ := bind_eq_ok.1 h
  obtain rfl := Except.ok.inj h
  exact ⟨hms, rfl⟩

theorem link_paths {s : Schema} (h : l.link = .ok s) :
    s.modules.map LinkedModule.path = l.paths :=
  map_eq_of_mapM (link_ok h).1 fun _ _ _ hx => linkModule_path hx

/-- The nodes of a schema are what the entries say, each by its number. -/
theorem outlines_link {is : List ImportPath} (hl : l.WellPlaced is) {s : Schema}
    (h : l.link = .ok s) : Outlines (List.range l.entries.size) l.entries.toList s.nodes := by
  have houtlines : Outlines (l.modules.toList.flatMap fun x => x.decls.flatMap PlacedDecl.ids)
      (l.modules.toList.zipIdx.flatMap fun x => fileEntries x.2 x.1.scope x.1.decls) s.nodes :=
    outlines_mapM (link_ok h).1 (fun _ _ _ hx k => outlines_linkModule hx k) 0
  rwa [hl.ids, ← hl.entries] at houtlines

/-! ## What a schema covers -/

/-- What can be found by its number among the entries is a node of the schema. -/
theorem exists_node {is : List ImportPath} (hl : l.WellPlaced is) {s : Schema}
    (h : l.link = .ok s) {id : DeclId} {c : EntryContent} (hc : l.content? id = some c) :
    ∃ n ∈ s.nodes, n.content.id = id ∧ n.content.kind = c.kind ∧ n.content.inside = c.inside := by
  obtain ⟨e, he, rfl⟩ := Option.map_eq_some_iff.1 hc
  have houtlines := outlines_link hl h
  rw [← Array.length_toList] at houtlines
  rw [← Array.getElem?_toList] at he
  obtain ⟨n, hn, hid, hinfo, hinside⟩ := houtlines.node he
  exact ⟨n, hn, hid, congrArg DeclInfo.kind hinfo, hinside⟩

theorem covers_places {is : List ImportPath} (hl : l.WellPlaced is) {s : Schema}
    (h : l.link = .ok s) : l.Covers s.places := by
  have hkind : ∀ id kind, l.hasKind id kind →
      ∃ n ∈ s.nodes, n.content.id = id ∧ n.content.kind = kind := by
    intro id kind hk
    obtain ⟨c, hc, rfl⟩ := Option.map_eq_some_iff.1 (of_decide_eq_true hk)
    obtain ⟨n, hn, hid, hk, -⟩ := exists_node hl h hc
    exact ⟨n, hn, hid, hk⟩
  constructor
  case type =>
    intro id hid
    rw [isType, Bool.or_eq_true, Bool.or_eq_true] at hid
    rcases hid with (hid | hid) | hid
    all_goals
      obtain ⟨n, hn, hn'⟩ := hkind id _ hid
      exact ⟨n, hn, by simp [hn']⟩
  case base => exact fun id hid => hkind id _ hid
  case const => exact fun id hid => hkind id _ hid
  case method =>
    intro r hr
    unfold ownMethods at hr
    split at hr
    · next body bases own hc =>
      obtain ⟨x, hx, hr⟩ := List.mem_map.1 hr
      obtain ⟨n, hn, hid, -, hinside⟩ := exists_node hl h hc
      obtain ⟨head, methods, hcontent, rfl⟩ := LinkedNode.eq_interface_of_inside hinside
      obtain ⟨m, hm, rfl⟩ := List.mem_map.1 hx
      rw [hcontent] at hid
      exact ⟨n, hn, head, methods, hcontent, hid, m, hm, congrArg MethodRef.name hr,
        congrArg MethodRef.ordinal hr⟩
    · cases hr
  case enumerant =>
    intro id enumerants name ordinal hc hname
    obtain ⟨n, hn, hid, -, hinside⟩ := exists_node hl h hc
    obtain ⟨d, hcontent, rfl⟩ := LinkedNode.eq_enum_of_inside hinside
    obtain ⟨e, he, heq⟩ := List.mem_map.1 (mem_of_lookup hname)
    rw [hcontent] at hid
    exact ⟨n, hn, d, hcontent, hid, e, he, (Prod.mk.inj heq).2⟩
  case annotation =>
    intro id targets type target hc happlies
    obtain ⟨n, hn, hid, -, hinside⟩ := exists_node hl h hc
    obtain ⟨d, hcontent, rfl⟩ := LinkedNode.eq_annotationDecl_of_inside hinside
    obtain ⟨t, ht, happlies⟩ := List.any_eq_true.1 happlies
    rw [hcontent] at hid
    refine ⟨n, hn, d, hcontent, hid, ?_⟩
    simp only [Bool.or_eq_true, decide_eq_true_eq] at happlies
    rcases happlies with rfl | rfl
    · exact .inl ht
    · exact .inr ht
  case decl =>
    intro id hid
    rwa [← Array.size_map, ← (link_ok h).2] at hid
  case module =>
    intro id hid
    have hlength := congrArg List.length (link_paths h)
    rw [List.length_map, paths, List.length_map, Array.length_toList] at hlength
    exact Nat.lt_of_lt_of_eq hid hlength.symm

end Loaded

end SchemaLang
