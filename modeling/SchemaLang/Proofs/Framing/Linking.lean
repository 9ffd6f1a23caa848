import SchemaLang.Proofs.Framing.Schema
import SchemaLang.Proofs.Framing.States
import SchemaLang.Proofs.Reordering.Schemas

/-!
# Linking states with one more declaration

A state that can be linked with one more declaration, the name of which no module mentions, can be
linked without it, and its schema is the same but for this declaration:
`Loaded.Extended.exists_link`.
-/

namespace SchemaLang

namespace Loaded

variable {l : Loaded}

/-- A linked declaration goes by the name that it binds. -/
theorem linkDecl_name? {scope : ScopeId} {p : PlacedDecl} {d : LinkedDecl}
    (h : l.linkDecl scope p = .ok d) {i : Ident} (hi : p.tree.binding = some i) :
    d.name? = some i.name := by
  cases p with
  | const =>
    obtain ⟨d', hd, rfl⟩ := map_eq_ok.1 h
    obtain rfl := Option.some.inj hi
    exact congrArg some (linkConst_ok hd).2
  | enum =>
    obtain ⟨d', hd, rfl⟩ := map_eq_ok.1 h
    obtain rfl := Option.some.inj hi
    exact congrArg some (linkEnum_ok hd).2.1
  | annotationDecl =>
    obtain ⟨d', hd, rfl⟩ := map_eq_ok.1 h
    obtain rfl := Option.some.inj hi
    exact congrArg some (linkAnnotationDecl_ok hd).2.1
  | struct =>
    rw [linkDecl] at h
    obtain ⟨head, hhead, h⟩ := bind_eq_ok.1 h
    obtain ⟨ms, -, h⟩ := bind_eq_ok.1 h
    obtain rfl := Except.ok.inj h
    obtain rfl := Option.some.inj hi
    exact congrArg some (linkHead_ok hhead).2
  | interface =>
    rw [linkDecl] at h
    obtain ⟨bases, -, h⟩ := bind_eq_ok.1 h
    obtain ⟨head, hhead, h⟩ := bind_eq_ok.1 h
    obtain ⟨items, -, h⟩ := bind_eq_ok.1 h
    obtain ⟨effective, -, h⟩ := bind_eq_ok.1 h
    obtain rfl := Except.ok.inj h
    obtain rfl := Option.some.inj hi
    exact congrArg some (linkHead_ok hhead).2
  | pathAlias a =>
    have hbinding : a.binding = some i := hi
    obtain ⟨b, -, h⟩ := bind_eq_ok.1 h
    obtain rfl := Except.ok.inj h
    rw [LinkedDecl.name?, hbinding]
    rfl
  | importAlias a =>
    have hbinding : a.binding = some i := hi
    obtain ⟨module, -, h⟩ := bind_eq_ok.1 h
    simp only [hbinding] at h
    obtain ⟨b, -, h⟩ := bind_eq_ok.1 h
    obtain rfl := Except.ok.inj h
    rfl

/-- A module with one more declaration at its end is linked as without it, and then this one. -/
theorem linkModule_concat {x : LoadedModule} {ds : List PlacedDecl} {p : PlacedDecl}
    (hx : x.decls = ds ++ [p]) {m : LinkedModule} (h : l.linkModule x = .ok m) :
    ∃ m₁ added, l.linkModule { x with decls := ds } = .ok m₁ ∧
      l.linkDecl x.scope p = .ok added ∧ m = { m₁ with decls := m₁.decls ++ [added] } := by
  obtain ⟨as, has, h⟩ := bind_eq_ok.1 h
  obtain ⟨ds', hds', h⟩ := bind_eq_ok.1 h
  obtain rfl := Except.ok.inj h
  rw [hx, List.mapM_append] at hds'
  obtain ⟨ds₁, hds₁, hds'⟩ := bind_eq_ok.1 hds'
  obtain ⟨added₁, hadded₁, hds'⟩ := bind_eq_ok.1 hds'
  obtain rfl := Except.ok.inj hds'
  rw [List.mapM_cons] at hadded₁
  obtain ⟨added, hadded, hnil⟩ := bind_eq_ok.1 hadded₁
  obtain rfl := Except.ok.inj hnil
  refine ⟨⟨x.path, x.fileId, as, ds₁⟩, added, ?_, hadded, rfl⟩
  simp only [linkModule, has, hds₁, ok_bind, pure_eq_ok]

/-- What can be linked with one more declaration can be linked without it, if its name is not known,
and the schema is then the same but for this declaration. -/
theorem Extended.exists_link {ρ : Renaming} {p : PlacedDecl} {l' : Loaded}
    (h : l.Extended ρ p l') (hl : l.Tabled) (hl' : l'.Tabled) {i : Ident}
    (hi : p.tree.binding = some i) (hknown : ∀ x ∈ l.modules.toList, i.name ∉ x.identifiers)
    {s' : Schema} (hs' : l'.link = .ok s') :
    ∃ s added, l.link = .ok s ∧ added.name? = some i.name ∧ s.Extended ρ added s' := by
  obtain ⟨x, xs, ds, hmodules, hdecls, hrows⟩ := h.modules
  have hother : ∀ y ∈ l.modules.toList, ∀ n ∈ y.identifiers, n ≠ i.name :=
    fun y hy n hn heq => hknown y hy (heq ▸ hn)
  have hrenamed : l.Renamed ρ (· ≠ i.name) l' := by
    refine h.renamed hl hl' (fun j hj hne => hne ?_) hother
    rw [Option.some.inj (hj.symm.trans hi)]
  -- The modules of the second state, and those of it that the first state has as well.
  obtain ⟨hms', hinfos'⟩ := link_ok hs'
  rw [hmodules, List.mapM_cons] at hms'
  obtain ⟨m, hm, hms'⟩ := bind_eq_ok.1 hms'
  obtain ⟨ms, hms, hms'⟩ := bind_eq_ok.1 hms'
  obtain ⟨m₁, added, hm₁, hadded, rfl⟩ := linkModule_concat hdecls hm
  have hkept : ({ x with decls := ds } :: xs).mapM l'.linkModule = .ok (m₁ :: ms) := by
    rw [List.mapM_cons, hm₁, hms]
    rfl
  have hagree : Agree (List.Forall₂ (LinkedModule.Reordered ρ false))
      (l.modules.toList.mapM l.linkModule) (({ x with decls := ds } :: xs).mapM l'.linkModule) :=
    agree_mapM <| ((List.forall₂_and_left _ _).2 ⟨hother, hrows⟩).imp
      fun _ _ hy => agree_linkModule hrenamed hy.2 hy.1
  rw [hkept] at hagree
  generalize hms₀ : l.modules.toList.mapM l.linkModule = o at hagree
  obtain @⟨ms₀, _, hrel⟩ := hagree
  have hids : added.ids = p.ids := (outlines_linkDecl Schema.root p hadded none x.scope).ids
  refine ⟨⟨ms₀, l.entries.map Entry.info⟩, added, ?_, linkDecl_name? hadded hi, ?_⟩
  · rw [link, hms₀]
    rfl
  constructor
  case module => exact h.module
  case modules =>
    refine ⟨m₁, ms, ?_, (Except.ok.inj hms').symm⟩
    rw [← List.forall₂_eq_eq_eq, List.forall₂_map_left_iff]
    exact hrel.imp fun _ _ hy => hy.eq_rename.symm
  case declsBijective =>
    rw [hids, hinfos', Array.size_map, Array.size_map]
    exact h.bijOn_decls hl hl'
  case decls =>
    rw [hinfos']
    exact hrenamed.getElem?_infos

end Loaded

end SchemaLang
