import SchemaLang.Proofs.Reordering.Linking
import SchemaLang.Proofs.Reordering.States
import SchemaLang.Proofs.Typing.Entries

/-!
# Linking states in another order

Two states that are the same up to a renaming and the order of declarations in the root can both be
linked or neither, `exists_link_iff`, and then the schemas are the same up to this renaming and this
order as well: `reordered_link`.
-/

namespace SchemaLang

/-! ## All steps of a row succeed -/

theorem exists_mapM_ok_iff {ε α β : Type} {f : α → Except ε β} {as : List α} :
    (∃ bs, as.mapM f = .ok bs) ↔ ∀ a ∈ as, ∃ b, f a = .ok b := by
  induction as with
  | nil => exact ⟨fun _ => nofun, fun _ => ⟨[], rfl⟩⟩
  | cons a as ih =>
    rw [List.forall_mem_cons, ← ih, List.mapM_cons]
    constructor
    · rintro ⟨bs, h⟩
      obtain ⟨b, hb, h⟩ := bind_eq_ok.1 h
      obtain ⟨bs, hbs, -⟩ := bind_eq_ok.1 h
      exact ⟨⟨b, hb⟩, bs, hbs⟩
    · rintro ⟨⟨b, hb⟩, bs, hbs⟩
      exact ⟨b :: bs, by rw [hb, hbs]; rfl⟩

namespace Loaded

variable {ρ : Renaming} {l l' : Loaded}

theorem agree_linkModule {known : String → Prop} (h : l.Renamed ρ known l') {moved : Bool}
    {x x' : LoadedModule} (hx : x.Reordered ρ moved x') (hknown : ∀ n ∈ x.identifiers, known n) :
    Agree (LinkedModule.Reordered ρ moved) (l.linkModule x) (l'.linkModule x') := by
  obtain ⟨hannotations, hdecls⟩ := List.forall_mem_append.1 hknown
  have hdecls := List.forall_mem_flatMap.1 hdecls
  rw [linkModule, linkModule, hx.scope, hx.annotations, hx.path, hx.fileId]
  refine Agree.bind (agree_linkApplications h x.scope .file hannotations) fun as _ has => ?_
  exact (agree_linkDecls h hx.decls x.scope hdecls).bind fun _ _ hds => .ok ⟨rfl, rfl, has, hds⟩

theorem exists_link {l : Loaded} :
    (∃ s, l.link = .ok s) ↔ ∀ x ∈ l.modules.toList, ∃ y, l.linkModule x = .ok y := by
  rw [← exists_mapM_ok_iff]
  constructor
  · rintro ⟨s, hs⟩
    exact ⟨_, (link_ok hs).1⟩
  · rintro ⟨ms, hms⟩
    exact ⟨⟨ms, l.entries.map Entry.info⟩, by rw [link, hms]; rfl⟩

/-- The root is the only module at its path. -/
theorem path_eq_rootPath_iff (hl : l.Tabled) {id : ModuleId} {x : LoadedModule}
    (hx : l.modules[id]? = some x) : x.path = Load.rootPath ↔ id = Schema.root := by
  have hpath : l.paths[id]? = some x.path := by
    rw [getElem?_paths, hx]
    rfl
  constructor
  · intro hroot
    have hlength := (List.getElem?_eq_some_iff.1 hl.root).1
    refine ((List.getElem?_inj hlength hl.nodup).1 ?_).symm
    rw [hl.root, hpath, hroot]
  · rintro rfl
    exact Option.some.inj (hpath.symm.trans hl.root)

theorem info_rename (ρ : Renaming) (e : Entry) : (e.rename ρ).info = e.info.rename ρ := by
  obtain ⟨module, parent, home, name, content⟩ := e
  cases content <;> rfl

theorem Renamed.getElem?_infos {known : String → Prop} (h : l.Renamed ρ known l') (id : DeclId) :
    (l'.entries.map Entry.info)[ρ.decl id]? =
      (l.entries.map Entry.info)[id]?.map (DeclInfo.rename ρ) := by
  rw [Array.getElem?_map, Array.getElem?_map, h.entries, Option.map_map, Option.map_map]
  exact congrArg (Option.map · l.entries[id]?) (funext (info_rename ρ))

variable (h : l.Reordered ρ l') (hl : l.Tabled) (hl' : l'.Tabled)
include h hl hl'

/-- The one can be linked if and only if the other can. -/
theorem exists_link_iff : (∃ s, l.link = .ok s) ↔ ∃ s', l'.link = .ok s' := by
  have hrenamed := h.renamed hl hl'
  have hpaired := h.modules.of_rows
  rw [exists_link, exists_link]
  constructor
  · intro hlink x' hx'
    obtain ⟨x, hx, hrel⟩ := hpaired.exists_left hx'
    exact (agree_linkModule hrenamed hrel fun _ _ => trivial).exists_ok_iff.1 (hlink x hx)
  · intro hlink x hx
    obtain ⟨x', hx', hrel⟩ := hpaired.exists_right hx
    exact (agree_linkModule hrenamed hrel fun _ _ => trivial).exists_ok_iff.2 (hlink x' hx')

/-- What is linked is the same up to the renaming and the order. -/
theorem reordered_link {s s' : Schema} (hs : l.link = .ok s) (hs' : l'.link = .ok s') :
    s.Reordered ρ s' := by
  have hms : List.Forall₂ (fun x m => l.linkModule x = .ok m) l.modules.toList s.modules :=
    forall₂_of_mapM (link_ok hs).1 fun _ _ _ hx => hx
  have hms' : List.Forall₂ (fun x m => l'.linkModule x = .ok m) l'.modules.toList s'.modules :=
    forall₂_of_mapM (link_ok hs').1 fun _ _ _ hx => hx
  constructor
  case modulesBijective =>
    rw [← hms.length_eq, ← hms'.length_eq]
    exact Paired.bijOn_positions h.moduleInjective h.modules
  case declsBijective =>
    rw [(link_ok hs).2, (link_ok hs').2, Array.size_map, Array.size_map, ← Array.length_toList,
      ← Array.length_toList]
    exact Paired.bijOn_positions h.declInjective (h.paired_entries hl hl')
  case root => exact h.module_root hl hl'
  case modules =>
    intro id
    have hrel := h.rel_modules id
    have hm := rel_getElem?_of_forall₂ hms id
    have hm' := rel_getElem?_of_forall₂ hms' (ρ.module id)
    have hroot : ∀ x ∈ l.modules[id]?, x.path = Load.rootPath ↔ id = Schema.root :=
      fun x hx => path_eq_rootPath_iff hl hx
    rw [Array.getElem?_toList] at hm hm'
    generalize l.modules[id]? = x, l'.modules[ρ.module id]? = x', s.modules[id]? = m,
      s'.modules[ρ.module id]? = m' at hrel hm hm' hroot ⊢
    cases hrel with
    | none =>
      cases hm
      cases hm'
      exact .none
    | some hx =>
      obtain hm | _ := hm
      obtain hm' | _ := hm'
      have hagree := agree_linkModule (h.renamed hl hl') hx fun _ _ => trivial
      rw [hm, hm', decide_eq_decide.2 (hroot _ rfl)] at hagree
      cases hagree with
      | ok hagree => exact .some hagree
  case decls =>
    rw [(link_ok hs).2, (link_ok hs').2]
    exact (h.renamed hl hl').getElem?_infos

end Loaded

end SchemaLang
