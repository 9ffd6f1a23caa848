import SchemaLang.Proofs.Spanning.Nodes
import SchemaLang.Proofs.Spans.Trees

/-!
# Spans and nodes

`Module.spans` lists the spans that are stored in a module, and `Module.Contains` finds the nodes
that can be reached from its roots.  Every span in the list is the span of such a node.
-/

namespace SchemaLang

namespace SyntaxNode

variable {α : Type} {n c : SyntaxNode} {s : Span}

/-- The span is that of the node or of one below it. -/
def Holds (n : SyntaxNode) (s : Span) : Prop :=
  ∃ c, Relation.ReflTransGen (fun n c => c ∈ n.children) n c ∧ c.span = s

theorem holds_self (n : SyntaxNode) : n.Holds n.span := ⟨n, .refl, rfl⟩

theorem Holds.of_child (h : c.Holds s) (hc : c ∈ n.children) : n.Holds s := by
  obtain ⟨d, hreach, hspan⟩ := h
  exact ⟨d, .head hc hreach, hspan⟩

/-- The spans of the items of a list, all of which are children. -/
theorem holds_of_list {as : List α} {spans : α → List Span} {node : α → SyntaxNode}
    (h : ∀ a ∈ as, ∀ s ∈ spans a, (node a).Holds s) (hnode : as.map node ⊆ n.children)
    (hs : s ∈ as.flatMap spans) : n.Holds s := by
  obtain ⟨a, ha, hs⟩ := List.mem_flatMap.1 hs
  exact (h a ha s hs).of_child (hnode (List.mem_map_of_mem ha))

/-! ## Names, types and literals -/

theorem holds_ident {i : Ident} (hs : s ∈ i.spans) : (ident i).Holds s := by
  obtain rfl := List.mem_singleton.1 hs
  exact holds_self _

theorem holds_idents {is : List Ident} (hnode : is.map .ident ⊆ n.children)
    (hs : s ∈ is.flatMap Ident.spans) : n.Holds s :=
  holds_of_list (fun _ _ _ => holds_ident) hnode hs

theorem holds_path {p : Path} (hs : s ∈ p.spans) : (path p).Holds s := by
  rcases List.mem_cons.1 hs with rfl | hs
  · exact holds_self _
  · exact holds_idents (List.Subset.refl _) hs

theorem holds_importPath {i : ImportPath} (hs : s ∈ i.spans) : (importPath i).Holds s := by
  obtain rfl := List.mem_singleton.1 hs
  exact holds_self _

theorem holds_ordinal {o : Ordinal} (hs : s ∈ o.spans) : (ordinal o).Holds s := by
  obtain rfl := List.mem_singleton.1 hs
  exact holds_self _

theorem holds_type {t : TypeRef} (hs : s ∈ t.spans) : (type t).Holds s := by
  induction t with
  | named p => exact (holds_path hs).of_child (n := .type (.named p)) List.mem_cons_self
  | list span element ih =>
    rcases List.mem_cons.1 hs with rfl | hs
    · exact holds_self _
    · exact (ih hs).of_child List.mem_cons_self
  | imported span source segments =>
    simp only [TypeRef.spans, List.mem_cons, List.mem_append] at hs
    rcases hs with rfl | hs | hs
    · exact holds_self _
    · exact (holds_importPath hs).of_child List.mem_cons_self
    · exact holds_idents (List.subset_cons_self _ _) hs

mutual

theorem holds_literal : ∀ {l : Literal} {s : Span}, s ∈ l.spans → (literal l).Holds s
  | .void _, _, hs | .bool _ _, _, hs | .int _ _, _, hs | .float _ _, _, hs
  | .text _ _, _, hs => by
    obtain rfl := List.mem_singleton.1 hs
    exact holds_self _
  | .name p, _, hs => (holds_path hs).of_child List.mem_cons_self
  | .list _ items, _, hs => by
    rcases List.mem_cons.1 hs with rfl | hs
    · exact holds_self _
    · obtain ⟨l, hl, h⟩ := holds_items hs
      exact h.of_child (List.mem_map_of_mem hl)
  | .struct _ fields, _, hs => by
    rcases List.mem_cons.1 hs with rfl | hs
    · exact holds_self _
    · obtain ⟨c, hc, h⟩ := holds_fields hs
      exact h.of_child hc

theorem holds_items : ∀ {items : List Literal} {s : Span}, s ∈ itemSpans items →
    ∃ l ∈ items, (literal l).Holds s
  | l :: items, _, hs => by
    rcases List.mem_append.1 hs with hs | hs
    · exact ⟨l, List.mem_cons_self, holds_literal hs⟩
    · obtain ⟨l', hl', h⟩ := holds_items hs
      exact ⟨l', List.mem_cons_of_mem l hl', h⟩

theorem holds_fields : ∀ {fields : List (Ident × Literal)} {s : Span}, s ∈ fieldSpans fields →
    ∃ c ∈ fields.flatMap ofFieldInit, c.Holds s
  | (i, l) :: fields, _, hs => by
    simp only [fieldSpans, List.mem_append] at hs
    rcases hs with (hs | hs) | hs
    · exact ⟨.ident i, by simp [ofFieldInit], holds_ident hs⟩
    · exact ⟨.literal l, by simp [ofFieldInit], holds_literal hs⟩
    · obtain ⟨c, hc, h⟩ := holds_fields hs
      exact ⟨c, by simp [hc], h⟩

end

theorem holds_value {value : Option Literal} (hnode : value.toList.map .literal ⊆ n.children)
    (hs : s ∈ value.toList.flatMap Literal.spans) : n.Holds s :=
  holds_of_list (fun _ _ _ => holds_literal) hnode hs

theorem holds_application {a : Application} (hs : s ∈ a.spans) : (application a).Holds s := by
  simp only [Application.spans, List.mem_cons, List.mem_append] at hs
  rcases hs with rfl | hs | hs
  · exact holds_self _
  · exact (holds_path hs).of_child List.mem_cons_self
  · exact holds_value (List.subset_cons_self _ _) hs

theorem holds_applications {as : List Application} (hnode : as.map .application ⊆ n.children)
    (hs : s ∈ as.flatMap Application.spans) : n.Holds s :=
  holds_of_list (fun _ _ _ => holds_application) hnode hs

/-! ## Declarations -/

theorem holds_enumerant {e : Enumerant} (hs : s ∈ e.spans) : (enumerant e).Holds s := by
  simp only [Enumerant.spans, List.mem_cons, List.mem_append] at hs
  rcases hs with rfl | (hs | hs) | hs
  · exact holds_self _
  · exact (holds_ident hs).of_child (by simp [children])
  · exact (holds_ordinal hs).of_child (by simp [children])
  · exact holds_applications (by intro c hc; simp [children, hc]) hs

/-- The spans of a parameter belong to the nodes that are written for it. -/
theorem holds_param {p : Param} (hnode : ofParam p ⊆ n.children) (hs : s ∈ p.spans) :
    n.Holds s := by
  have hparam : param p ∈ n.children := hnode List.mem_cons_self
  simp only [Param.spans, List.mem_cons, List.mem_append] at hs
  rcases hs with rfl | ((hs | hs) | hs) | hs
  · exact (holds_self (.param p)).of_child hparam
  · exact ((holds_ident hs).of_child (n := .param p) (by simp [children])).of_child hparam
  · exact ((holds_type hs).of_child (n := .param p) (by simp [children])).of_child hparam
  · exact holds_value (fun c hc => hnode (by simp_all [ofParam])) hs
  · exact holds_applications (fun c hc => hnode (by simp_all [ofParam])) hs

theorem holds_params {ps : List Param} (hnode : ps.flatMap ofParam ⊆ n.children)
    (hs : s ∈ ps.flatMap Param.spans) : n.Holds s := by
  obtain ⟨p, hp, hs⟩ := List.mem_flatMap.1 hs
  exact holds_param (fun c hc => hnode (List.mem_flatMap.2 ⟨p, hp, hc⟩)) hs

theorem holds_method {m : Method} (hs : s ∈ m.spans) :
    (interfaceMember (.method m)).Holds s := by
  simp only [Method.spans, List.mem_cons, List.mem_append] at hs
  rcases hs with rfl | (((hs | hs) | hs) | hs) | hs
  · exact holds_self _
  · exact (holds_ident hs).of_child (by simp [children, ofInterfaceMember])
  · exact (holds_ordinal hs).of_child (by simp [children, ofInterfaceMember])
  · exact holds_params (fun c hc => by simp_all [children, ofInterfaceMember]) hs
  · obtain ⟨ps, hps, hs⟩ := List.mem_flatMap.1 hs
    refine holds_params (fun c hc => ?_) hs
    have hresult : c ∈ m.results.toList.flatMap (List.flatMap ofParam) :=
      List.mem_flatMap.2 ⟨ps, hps, hc⟩
    simp [children, ofInterfaceMember, hresult]
  · exact holds_applications (fun c hc => by simp_all [children, ofInterfaceMember]) hs

theorem holds_field {f : Field} (hs : s ∈ f.spans) : (member (.field f)).Holds s := by
  simp only [Field.spans, List.mem_cons, List.mem_append] at hs
  rcases hs with rfl | (((hs | hs) | hs) | hs) | hs
  · exact holds_self _
  · exact (holds_ident hs).of_child (by simp [children, ofMember])
  · exact (holds_ordinal hs).of_child (by simp [children, ofMember])
  · exact (holds_type hs).of_child (by simp [children, ofMember])
  · exact holds_value (fun c hc => by simp_all [children, ofMember]) hs
  · exact holds_applications (fun c hc => by simp_all [children, ofMember]) hs

theorem holds_const {d : Const} (hs : s ∈ d.spans) : (decl (.const d)).Holds s := by
  simp only [Const.spans, List.mem_cons, List.mem_append] at hs
  rcases hs with rfl | ((hs | hs) | hs) | hs
  · exact holds_self _
  · exact (holds_ident hs).of_child (by simp [children, ofDecl])
  · exact (holds_type hs).of_child (by simp [children, ofDecl])
  · exact (holds_literal hs).of_child (by simp [children, ofDecl])
  · exact holds_applications (fun c hc => by simp_all [children, ofDecl]) hs

theorem holds_enum {d : Enum} (hs : s ∈ d.spans) : (decl (.enum d)).Holds s := by
  simp only [Enum.spans, List.mem_cons, List.mem_append] at hs
  rcases hs with rfl | (hs | hs) | hs
  · exact holds_self _
  · exact (holds_ident hs).of_child (by simp [children, ofDecl])
  · exact holds_applications (fun c hc => by simp_all [children, ofDecl]) hs
  · exact holds_of_list (fun _ _ _ => holds_enumerant)
      (fun c hc => by simp_all [children, ofDecl]) hs

theorem holds_annotationDecl {d : AnnotationDecl} (hs : s ∈ d.spans) :
    (decl (.annotationDecl d)).Holds s := by
  simp only [AnnotationDecl.spans, List.mem_cons, List.mem_append] at hs
  rcases hs with rfl | ((hs | hs) | hs) | hs
  · exact holds_self _
  · exact (holds_ident hs).of_child (by simp [children, ofDecl])
  · obtain ⟨t, ht, rfl⟩ := List.mem_map.1 hs
    exact (holds_self (.target t)).of_child (by simp [children, ofDecl, ht])
  · exact (holds_type hs).of_child (by simp [children, ofDecl])
  · exact holds_applications (fun c hc => by simp_all [children, ofDecl]) hs

theorem holds_pathAlias {a : Alias} (hs : s ∈ a.spans) : (decl (.pathAlias a)).Holds s := by
  simp only [Alias.spans, List.mem_cons, List.mem_append] at hs
  rcases hs with rfl | hs | hs
  · exact holds_self _
  · exact holds_idents (fun c hc => by simp_all [children, ofDecl]) hs
  · exact (holds_path hs).of_child (by simp [children, ofDecl])

theorem holds_importAlias {a : ImportAlias} (hs : s ∈ a.spans) :
    (decl (.importAlias a)).Holds s := by
  simp only [ImportAlias.spans, List.mem_cons, List.mem_append] at hs
  rcases hs with rfl | (hs | hs) | hs
  · exact holds_self _
  · exact holds_idents (fun c hc => by simp_all [children, ofDecl]) hs
  · exact (holds_importPath hs).of_child (by simp [children, ofDecl])
  · exact holds_idents (fun c hc => by simp_all [children, ofDecl]) hs

/-- The head of a node with a body. -/
theorem holds_head {h : Head} (hspan : n.span = h.span) (hname : .ident h.name ∈ n.children)
    (happlied : h.annotations.map .application ⊆ n.children) (hs : s ∈ h.spans) : n.Holds s := by
  simp only [Head.spans, List.mem_cons, List.mem_append] at hs
  rcases hs with rfl | hs | hs
  · exact hspan ▸ holds_self n
  · exact (holds_ident hs).of_child hname
  · exact holds_applications happlied hs

mutual

theorem holds_decl : ∀ {d : Decl} {s : Span}, s ∈ d.spans → (decl d).Holds s
  | .const _, _, hs => holds_const hs
  | .struct head ms, _, hs => by
    rcases List.mem_append.1 hs with hs | hs
    · exact holds_head rfl (by simp [children, ofDecl])
        (fun c hc => by simp_all [children, ofDecl]) hs
    · obtain ⟨m, hm, h⟩ := holds_members hs
      exact h.of_child (by simp [children, ofDecl, hm])
  | .enum _, _, hs => holds_enum hs
  | .interface head bases ms, _, hs => by
    simp only [Decl.spans, List.mem_append] at hs
    rcases hs with (hs | hs) | hs
    · exact holds_head rfl (by simp [children, ofDecl])
        (fun c hc => by simp_all [children, ofDecl]) hs
    · exact holds_of_list (fun _ _ _ => holds_type)
        (fun c hc => by simp_all [children, ofDecl]) hs
    · obtain ⟨m, hm, h⟩ := holds_interfaceMembers hs
      exact h.of_child (by simp [children, ofDecl, hm])
  | .annotationDecl _, _, hs => holds_annotationDecl hs
  | .pathAlias _, _, hs => holds_pathAlias hs
  | .importAlias _, _, hs => holds_importAlias hs

theorem holds_member : ∀ {m : Member} {s : Span}, s ∈ m.spans → (member m).Holds s
  | .field _, _, hs => holds_field hs
  | .union head o ms, _, hs => by
    simp only [Member.spans, List.mem_append] at hs
    rcases hs with (hs | hs) | hs
    · exact holds_head rfl (by simp [children, ofMember])
        (fun c hc => by simp_all [children, ofMember]) hs
    · exact holds_of_list (fun _ _ _ => holds_ordinal)
        (fun c hc => by simp_all [children, ofMember]) hs
    · obtain ⟨m, hm, h⟩ := holds_members hs
      exact h.of_child (by simp [children, ofMember, hm])
  | .anonymousUnion span annotations ms, _, hs => by
    simp only [Member.spans, List.mem_cons, List.mem_append] at hs
    rcases hs with rfl | hs | hs
    · exact holds_self _
    · exact holds_applications (fun c hc => by simp_all [children, ofMember]) hs
    · obtain ⟨m, hm, h⟩ := holds_members hs
      exact h.of_child (by simp [children, ofMember, hm])
  | .group head ms, _, hs => by
    rcases List.mem_append.1 hs with hs | hs
    · exact holds_head rfl (by simp [children, ofMember])
        (fun c hc => by simp_all [children, ofMember]) hs
    · obtain ⟨m, hm, h⟩ := holds_members hs
      exact h.of_child (by simp [children, ofMember, hm])
  | .decl _, _, hs => (holds_decl hs).of_child List.mem_cons_self

theorem holds_members : ∀ {ms : List Member} {s : Span}, s ∈ memberSpans ms →
    ∃ m ∈ ms, (member m).Holds s
  | m :: ms, _, hs => by
    rcases List.mem_append.1 hs with hs | hs
    · exact ⟨m, List.mem_cons_self, holds_member hs⟩
    · obtain ⟨m', hm', h⟩ := holds_members hs
      exact ⟨m', List.mem_cons_of_mem m hm', h⟩

theorem holds_interfaceMember : ∀ {m : InterfaceMember} {s : Span}, s ∈ m.spans →
    (interfaceMember m).Holds s
  | .method _, _, hs => holds_method hs
  | .decl _, _, hs => (holds_decl hs).of_child List.mem_cons_self

theorem holds_interfaceMembers : ∀ {ms : List InterfaceMember} {s : Span},
    s ∈ interfaceMemberSpans ms → ∃ m ∈ ms, (interfaceMember m).Holds s
  | m :: ms, _, hs => by
    rcases List.mem_append.1 hs with hs | hs
    · exact ⟨m, List.mem_cons_self, holds_interfaceMember hs⟩
    · obtain ⟨m', hm', h⟩ := holds_interfaceMembers hs
      exact ⟨m', List.mem_cons_of_mem m hm', h⟩

end

end SyntaxNode

open SyntaxNode in
/-- Every span of a module is that of a node in it. -/
theorem Module.exists_contains {m : Module} {s : Span} (hs : s ∈ m.spans) :
    ∃ n, m.Contains n ∧ n.span = s := by
  have hroot {root : SyntaxNode} (h : root.Holds s) (hmem : root ∈ m.roots) :
      ∃ n, m.Contains n ∧ n.span = s := by
    obtain ⟨n, hreach, hspan⟩ := h
    exact ⟨n, ⟨root, hmem, hreach⟩, hspan⟩
  simp only [Module.spans, FileId.spans, List.mem_append, List.mem_singleton,
    List.mem_flatMap] at hs
  rcases hs with (rfl | ⟨a, ha, hs⟩) | ⟨d, hd, hs⟩
  · exact hroot (holds_self (.fileId m.id)) List.mem_cons_self
  · exact hroot (holds_application hs) (by simp [Module.roots, ha])
  · exact hroot (holds_decl hs) (by simp [Module.roots, hd])

end SchemaLang
