import Mathlib.Data.List.Forall2
import SchemaLang.Proofs.Printing.Erasure

/-!
# The spans of a tree

`spans` lists the spans of all nodes of a tree, the whole node before its parts.  `Alike R` says of
two trees that they differ at most in their spans and that these are related by `R` one by one; a
tree whose parts are alike is alike itself.
-/

namespace SchemaLang

/-! ## Names, types and literals -/

def Ident.spans (i : Ident) : List Span := [i.span]

def Path.spans (p : Path) : List Span := p.span :: p.segments.flatMap Ident.spans

def ImportPath.spans (i : ImportPath) : List Span := [i.span]

def Ordinal.spans (o : Ordinal) : List Span := [o.span]

def FileId.spans (id : FileId) : List Span := [id.span]

def TypeRef.spans : TypeRef → List Span
  | .named p => p.spans
  | .list span element => span :: element.spans
  | .imported span source segments => span :: (source.spans ++ segments.flatMap Ident.spans)

mutual

def Literal.spans : Literal → List Span
  | .void span | .bool span _ | .int span _ | .float span _ | .text span _ => [span]
  | .name p => p.spans
  | .list span items => span :: itemSpans items
  | .struct span fields => span :: fieldSpans fields

/-- The spans of the items of a list. -/
def itemSpans : List Literal → List Span
  | [] => []
  | l :: ls => l.spans ++ itemSpans ls

/-- The spans of the fields of a struct. -/
def fieldSpans : List (Ident × Literal) → List Span
  | [] => []
  | (i, l) :: fields => i.spans ++ l.spans ++ fieldSpans fields

end

def Application.spans (a : Application) : List Span :=
  a.span :: (a.name.spans ++ a.value.toList.flatMap Literal.spans)

/-! ## Declarations -/

def Const.spans (d : Const) : List Span :=
  d.span :: (d.name.spans ++ d.type.spans ++ d.value.spans ++
    d.annotations.flatMap Application.spans)

def Field.spans (f : Field) : List Span :=
  f.span :: (f.name.spans ++ f.ordinal.spans ++ f.type.spans ++
    f.default.toList.flatMap Literal.spans ++ f.annotations.flatMap Application.spans)

def Enumerant.spans (e : Enumerant) : List Span :=
  e.span :: (e.name.spans ++ e.ordinal.spans ++ e.annotations.flatMap Application.spans)

def Enum.spans (d : Enum) : List Span :=
  d.span :: (d.name.spans ++ d.annotations.flatMap Application.spans ++
    d.enumerants.flatMap Enumerant.spans)

def Param.spans (p : Param) : List Span :=
  p.span :: (p.name.spans ++ p.type.spans ++ p.default.toList.flatMap Literal.spans ++
    p.annotations.flatMap Application.spans)

def Method.spans (m : Method) : List Span :=
  m.span :: (m.name.spans ++ m.ordinal.spans ++ m.params.flatMap Param.spans ++
    m.results.toList.flatMap (List.flatMap Param.spans) ++ m.annotations.flatMap Application.spans)

def AnnotationDecl.spans (d : AnnotationDecl) : List Span :=
  d.span :: (d.name.spans ++ d.targets.map Prod.fst ++ d.type.spans ++
    d.annotations.flatMap Application.spans)

def Alias.spans (a : Alias) : List Span :=
  a.span :: (a.name.toList.flatMap Ident.spans ++ a.target.spans)

def ImportAlias.spans (a : ImportAlias) : List Span :=
  a.span :: (a.name.toList.flatMap Ident.spans ++ a.source.spans ++ a.path.flatMap Ident.spans)

def Head.spans (h : Head) : List Span :=
  h.span :: (h.name.spans ++ h.annotations.flatMap Application.spans)

mutual

def Decl.spans : Decl → List Span
  | .const d => d.spans
  | .struct head ms => head.spans ++ memberSpans ms
  | .enum d => d.spans
  | .interface head bases ms =>
    head.spans ++ bases.flatMap TypeRef.spans ++ interfaceMemberSpans ms
  | .annotationDecl d => d.spans
  | .pathAlias a => a.spans
  | .importAlias a => a.spans

def Member.spans : Member → List Span
  | .field f => f.spans
  | .union head o ms => head.spans ++ o.toList.flatMap Ordinal.spans ++ memberSpans ms
  | .anonymousUnion span annotations ms =>
    span :: (annotations.flatMap Application.spans ++ memberSpans ms)
  | .group head ms => head.spans ++ memberSpans ms
  | .decl d => d.spans

/-- The spans of the members of a body. -/
def memberSpans : List Member → List Span
  | [] => []
  | m :: ms => m.spans ++ memberSpans ms

def InterfaceMember.spans : InterfaceMember → List Span
  | .method m => m.spans
  | .decl d => d.spans

/-- The spans of the items of an interface. -/
def interfaceMemberSpans : List InterfaceMember → List Span
  | [] => []
  | m :: ms => m.spans ++ interfaceMemberSpans ms

end

/-- The spans of a module.  The module itself has none. -/
def Module.spans (m : Module) : List Span :=
  m.id.spans ++ m.annotations.flatMap Application.spans ++ m.decls.flatMap Decl.spans

/-! ## Parts of a list -/

theorem itemSpans_eq_flatMap (items : List Literal) :
    itemSpans items = items.flatMap Literal.spans := by
  induction items with
  | nil => rfl
  | cons l ls ih => rw [itemSpans, ih, List.flatMap_cons]

theorem fieldSpans_eq_flatMap (fields : List (Ident × Literal)) :
    fieldSpans fields = fields.flatMap fun f => f.1.spans ++ f.2.spans := by
  induction fields with
  | nil => rfl
  | cons f fields ih => rw [fieldSpans, ih, List.flatMap_cons]

theorem memberSpans_eq_flatMap (ms : List Member) : memberSpans ms = ms.flatMap Member.spans := by
  induction ms with
  | nil => rfl
  | cons m ms ih => rw [memberSpans, ih, List.flatMap_cons]

theorem interfaceMemberSpans_eq_flatMap (ms : List InterfaceMember) :
    interfaceMemberSpans ms = ms.flatMap InterfaceMember.spans := by
  induction ms with
  | nil => rfl
  | cons m ms ih => rw [interfaceMemberSpans, ih, List.flatMap_cons]

/-! ## Trees that differ in their spans -/

/-- A kind of tree, with the spans of its nodes and the tree without them. -/
class Spanned (α : Type) where
  spans : α → List Span
  bare : α → α

instance : Spanned Ident := ⟨Ident.spans, Ident.eraseSpans⟩

instance : Spanned Path := ⟨Path.spans, Path.eraseSpans⟩

instance : Spanned ImportPath := ⟨ImportPath.spans, ImportPath.eraseSpans⟩

instance : Spanned Ordinal := ⟨Ordinal.spans, Ordinal.eraseSpans⟩

instance : Spanned FileId := ⟨FileId.spans, FileId.eraseSpans⟩

instance : Spanned TypeRef := ⟨TypeRef.spans, TypeRef.eraseSpans⟩

instance : Spanned Literal := ⟨Literal.spans, Literal.eraseSpans⟩

instance : Spanned Application := ⟨Application.spans, Application.eraseSpans⟩

instance : Spanned Enumerant := ⟨Enumerant.spans, Enumerant.eraseSpans⟩

instance : Spanned Param := ⟨Param.spans, Param.eraseSpans⟩

instance : Spanned Method := ⟨Method.spans, Method.eraseSpans⟩

instance : Spanned Head := ⟨Head.spans, Head.eraseSpans⟩

instance : Spanned Decl := ⟨Decl.spans, Decl.eraseSpans⟩

instance : Spanned Member := ⟨Member.spans, Member.eraseSpans⟩

instance : Spanned InterfaceMember := ⟨InterfaceMember.spans, InterfaceMember.eraseSpans⟩

instance : Spanned Module := ⟨Module.spans, Module.eraseSpans⟩

/-- The trees differ at most in their spans, which are related one by one. -/
structure Alike {α : Type} [Spanned α] (R : Span → Span → Prop) (x x' : α) : Prop where
  bare : Spanned.bare x = Spanned.bare x'
  spans : List.Forall₂ R (Spanned.spans x) (Spanned.spans x')

section Nodes

variable {α : Type} [Spanned α] {R : Span → Span → Prop} {span span' : Span}
  {annotations annotations' : List Application} {ms ms' : List Member}
  {default default' : Option Literal} {type type' : TypeRef} {name name' : Ident}
  {ordinal ordinal' : Ordinal} {head head' : Head}

theorem map_bare {xs xs' : List α} (h : List.Forall₂ (Alike R) xs xs') :
    xs.map Spanned.bare = xs'.map Spanned.bare := by
  induction h with
  | nil => rfl
  | cons h _ ih => rw [List.map_cons, List.map_cons, h.bare, ih]

theorem flatMap_spans {xs xs' : List α} (h : List.Forall₂ (Alike R) xs xs') :
    List.Forall₂ R (xs.flatMap Spanned.spans) (xs'.flatMap Spanned.spans) :=
  List.rel_flatMap h fun _ _ h => h.spans

theorem optionMap_bare {o o' : Option α} (h : Option.Rel (Alike R) o o') :
    o.map Spanned.bare = o'.map Spanned.bare := by
  cases h with
  | some h => exact congrArg some h.bare
  | none => rfl

theorem toList_spans {o o' : Option α} (h : Option.Rel (Alike R) o o') :
    List.Forall₂ R (o.toList.flatMap Spanned.spans) (o'.toList.flatMap Spanned.spans) := by
  cases h with
  | some h => exact flatMap_spans (.cons h .nil)
  | none => exact .nil

theorem alike_path {segments segments' : List Ident} (h : R span span')
    (hs : List.Forall₂ (Alike R) segments segments') :
    Alike R (⟨span, segments⟩ : Path) ⟨span', segments'⟩ :=
  ⟨(Path.mk.injEq ..).mpr ⟨rfl, map_bare hs⟩, .cons h (flatMap_spans hs)⟩

/-! ### Types and literals -/

theorem alike_named {p p' : Path} (h : Alike R p p') : Alike R (TypeRef.named p) (.named p') :=
  ⟨congrArg TypeRef.named h.bare, h.spans⟩

theorem alike_listType (h : R span span') (ht : Alike R type type') :
    Alike R (TypeRef.list span type) (.list span' type') :=
  ⟨congrArg (TypeRef.list _) ht.bare, .cons h ht.spans⟩

theorem alike_imported {source source' : ImportPath} {segments segments' : List Ident}
    (h : R span span') (hs : Alike R source source')
    (hsegments : List.Forall₂ (Alike R) segments segments') :
    Alike R (TypeRef.imported span source segments) (.imported span' source' segments') :=
  ⟨(TypeRef.imported.injEq ..).mpr ⟨rfl, hs.bare, map_bare hsegments⟩,
    .cons h (List.rel_append hs.spans (flatMap_spans hsegments))⟩

theorem alike_name {p p' : Path} (h : Alike R p p') : Alike R (Literal.name p) (.name p') :=
  ⟨congrArg Literal.name h.bare, h.spans⟩

theorem alike_listLiteral {items items' : List Literal} (h : R span span')
    (hi : List.Forall₂ (Alike R) items items') :
    Alike R (Literal.list span items) (.list span' items') := by
  constructor
  · show Literal.list _ (eraseItems items) = Literal.list _ (eraseItems items')
    rw [eraseItems_eq_map, eraseItems_eq_map]
    exact congrArg _ (map_bare hi)
  · show List.Forall₂ R (span :: itemSpans items) (span' :: itemSpans items')
    rw [itemSpans_eq_flatMap, itemSpans_eq_flatMap]
    exact .cons h (flatMap_spans hi)

theorem alike_structLiteral {fields fields' : List (Ident × Literal)} (h : R span span')
    (hf : List.Forall₂ (fun f f' => Alike R f.1 f'.1 ∧ Alike R f.2 f'.2) fields fields') :
    Alike R (Literal.struct span fields) (.struct span' fields') := by
  constructor
  · show Literal.struct _ (eraseFields fields) = Literal.struct _ (eraseFields fields')
    rw [eraseFields_eq_map, eraseFields_eq_map]
    refine congrArg _ ?_
    induction hf with
    | nil => rfl
    | cons hf _ ih =>
      rw [List.map_cons, List.map_cons, ih]
      exact congrArg (· :: _) (Prod.ext hf.1.bare hf.2.bare)
  · show List.Forall₂ R (span :: fieldSpans fields) (span' :: fieldSpans fields')
    rw [fieldSpans_eq_flatMap, fieldSpans_eq_flatMap]
    exact .cons h (List.rel_flatMap hf fun _ _ hf => List.rel_append hf.1.spans hf.2.spans)

theorem alike_application {value value' : Option Literal} {p p' : Path} (h : R span span')
    (hp : Alike R p p') (hv : Option.Rel (Alike R) value value') :
    Alike R (⟨span, p, value⟩ : Application) ⟨span', p', value'⟩ :=
  ⟨(Application.mk.injEq ..).mpr ⟨rfl, hp.bare, optionMap_bare hv⟩,
    .cons h (List.rel_append hp.spans (toList_spans hv))⟩

/-! ### Declarations -/

theorem alike_head (h : R span span') (hn : Alike R name name')
    (ha : List.Forall₂ (Alike R) annotations annotations') :
    Alike R (⟨span, name, annotations⟩ : Head) ⟨span', name', annotations'⟩ :=
  ⟨(Head.mk.injEq ..).mpr ⟨rfl, hn.bare, map_bare ha⟩,
    .cons h (List.rel_append hn.spans (flatMap_spans ha))⟩

theorem alike_const {value value' : Literal} (h : R span span') (hn : Alike R name name')
    (ht : Alike R type type') (hv : Alike R value value')
    (ha : List.Forall₂ (Alike R) annotations annotations') :
    Alike R (Decl.const ⟨span, name, type, value, annotations⟩)
      (.const ⟨span', name', type', value', annotations'⟩) :=
  ⟨congrArg Decl.const ((Const.mk.injEq ..).mpr ⟨rfl, hn.bare, ht.bare, hv.bare, map_bare ha⟩),
    .cons h (List.rel_append (List.rel_append (List.rel_append hn.spans ht.spans) hv.spans)
      (flatMap_spans ha))⟩

theorem alike_enumerant (h : R span span') (hn : Alike R name name')
    (ho : Alike R ordinal ordinal') (ha : List.Forall₂ (Alike R) annotations annotations') :
    Alike R (⟨span, name, ordinal, annotations⟩ : Enumerant)
      ⟨span', name', ordinal', annotations'⟩ :=
  ⟨(Enumerant.mk.injEq ..).mpr ⟨rfl, hn.bare, ho.bare, map_bare ha⟩,
    .cons h (List.rel_append (List.rel_append hn.spans ho.spans) (flatMap_spans ha))⟩

theorem alike_enum {es es' : List Enumerant} (h : R span span') (hn : Alike R name name')
    (ha : List.Forall₂ (Alike R) annotations annotations')
    (he : List.Forall₂ (Alike R) es es') :
    Alike R (Decl.enum ⟨span, name, annotations, es⟩)
      (.enum ⟨span', name', annotations', es'⟩) :=
  ⟨congrArg Decl.enum ((Enum.mk.injEq ..).mpr ⟨rfl, hn.bare, map_bare ha, map_bare he⟩),
    .cons h (List.rel_append (List.rel_append hn.spans (flatMap_spans ha)) (flatMap_spans he))⟩

theorem alike_param (h : R span span') (hn : Alike R name name') (ht : Alike R type type')
    (hd : Option.Rel (Alike R) default default')
    (ha : List.Forall₂ (Alike R) annotations annotations') :
    Alike R (⟨span, name, type, default, annotations⟩ : Param)
      ⟨span', name', type', default', annotations'⟩ :=
  ⟨(Param.mk.injEq ..).mpr ⟨rfl, hn.bare, ht.bare, optionMap_bare hd, map_bare ha⟩,
    .cons h (List.rel_append (List.rel_append (List.rel_append hn.spans ht.spans)
      (toList_spans hd)) (flatMap_spans ha))⟩

theorem alike_method {ps ps' : List Param} {rs rs' : Option (List Param)} (h : R span span')
    (hn : Alike R name name') (ho : Alike R ordinal ordinal')
    (hp : List.Forall₂ (Alike R) ps ps') (hr : Option.Rel (List.Forall₂ (Alike R)) rs rs')
    (ha : List.Forall₂ (Alike R) annotations annotations') :
    Alike R (⟨span, name, ordinal, ps, rs, annotations⟩ : Method)
      ⟨span', name', ordinal', ps', rs', annotations'⟩ := by
  have hbare : rs.map (List.map Param.eraseSpans) = rs'.map (List.map Param.eraseSpans) := by
    cases hr with
    | some hr => exact congrArg some (map_bare hr)
    | none => rfl
  have hspans : List.Forall₂ R (rs.toList.flatMap (List.flatMap Param.spans))
      (rs'.toList.flatMap (List.flatMap Param.spans)) := by
    cases hr with
    | some hr => exact List.rel_flatMap (.cons hr .nil) fun _ _ h => flatMap_spans h
    | none => exact .nil
  exact ⟨(Method.mk.injEq ..).mpr ⟨rfl, hn.bare, ho.bare, map_bare hp, hbare, map_bare ha⟩,
    .cons h (List.rel_append (List.rel_append (List.rel_append (List.rel_append hn.spans ho.spans)
      (flatMap_spans hp)) hspans) (flatMap_spans ha))⟩

theorem alike_annotationDecl {targets targets' : List (Span × Target)} (h : R span span')
    (hn : Alike R name name')
    (hs : List.Forall₂ (fun t t' => R t.1 t'.1 ∧ t.2 = t'.2) targets targets')
    (ht : Alike R type type') (ha : List.Forall₂ (Alike R) annotations annotations') :
    Alike R (Decl.annotationDecl ⟨span, name, targets, type, annotations⟩)
      (.annotationDecl ⟨span', name', targets', type', annotations'⟩) := by
  have hbare : targets.map (fun t => (Span.point 0, t.2)) =
      targets'.map fun t => (Span.point 0, t.2) := by
    induction hs with
    | nil => rfl
    | cons hs _ ih => rw [List.map_cons, List.map_cons, ih, hs.2]
  exact ⟨congrArg Decl.annotationDecl ((AnnotationDecl.mk.injEq ..).mpr
      ⟨rfl, hn.bare, hbare, ht.bare, map_bare ha⟩),
    .cons h (List.rel_append (List.rel_append (List.rel_append hn.spans
      (List.rel_map (fun _ _ h => h.1) hs)) ht.spans) (flatMap_spans ha))⟩

theorem alike_pathAlias {o o' : Option Ident} {p p' : Path} (h : R span span')
    (hn : Option.Rel (Alike R) o o') (hp : Alike R p p') :
    Alike R (Decl.pathAlias ⟨span, o, p⟩) (.pathAlias ⟨span', o', p'⟩) :=
  ⟨congrArg Decl.pathAlias ((Alias.mk.injEq ..).mpr ⟨rfl, optionMap_bare hn, hp.bare⟩),
    .cons h (List.rel_append (toList_spans hn) hp.spans)⟩

theorem alike_importAlias {o o' : Option Ident} {source source' : ImportPath}
    {segments segments' : List Ident} (h : R span span') (hn : Option.Rel (Alike R) o o')
    (hs : Alike R source source') (hsegments : List.Forall₂ (Alike R) segments segments') :
    Alike R (Decl.importAlias ⟨span, o, source, segments⟩)
      (.importAlias ⟨span', o', source', segments'⟩) :=
  ⟨congrArg Decl.importAlias ((ImportAlias.mk.injEq ..).mpr
      ⟨rfl, optionMap_bare hn, hs.bare, map_bare hsegments⟩),
    .cons h (List.rel_append (List.rel_append (toList_spans hn) hs.spans)
      (flatMap_spans hsegments))⟩

/-! ### Bodies -/

theorem eraseMembers_eq (h : List.Forall₂ (Alike R) ms ms') :
    eraseMembers ms = eraseMembers ms' := by
  rw [eraseMembers_eq_map, eraseMembers_eq_map]
  exact map_bare h

theorem rel_memberSpans (h : List.Forall₂ (Alike R) ms ms') :
    List.Forall₂ R (memberSpans ms) (memberSpans ms') := by
  rw [memberSpans_eq_flatMap, memberSpans_eq_flatMap]
  exact flatMap_spans h

theorem alike_struct (hh : Alike R head head') (hm : List.Forall₂ (Alike R) ms ms') :
    Alike R (Decl.struct head ms) (.struct head' ms') :=
  ⟨(Decl.struct.injEq ..).mpr ⟨hh.bare, eraseMembers_eq hm⟩,
    List.rel_append hh.spans (rel_memberSpans hm)⟩

theorem alike_interface {bases bases' : List TypeRef} {is is' : List InterfaceMember}
    (hh : Alike R head head') (hb : List.Forall₂ (Alike R) bases bases')
    (hi : List.Forall₂ (Alike R) is is') :
    Alike R (Decl.interface head bases is) (.interface head' bases' is') := by
  have hbare : eraseInterfaceMembers is = eraseInterfaceMembers is' := by
    rw [eraseInterfaceMembers_eq_map, eraseInterfaceMembers_eq_map]
    exact map_bare hi
  have hspans : List.Forall₂ R (interfaceMemberSpans is) (interfaceMemberSpans is') := by
    rw [interfaceMemberSpans_eq_flatMap, interfaceMemberSpans_eq_flatMap]
    exact flatMap_spans hi
  exact ⟨(Decl.interface.injEq ..).mpr ⟨hh.bare, map_bare hb, hbare⟩,
    List.rel_append (List.rel_append hh.spans (flatMap_spans hb)) hspans⟩

theorem alike_field (h : R span span') (hn : Alike R name name') (ho : Alike R ordinal ordinal')
    (ht : Alike R type type') (hd : Option.Rel (Alike R) default default')
    (ha : List.Forall₂ (Alike R) annotations annotations') :
    Alike R (Member.field ⟨span, name, ordinal, type, default, annotations⟩)
      (.field ⟨span', name', ordinal', type', default', annotations'⟩) :=
  ⟨congrArg Member.field ((Field.mk.injEq ..).mpr
      ⟨rfl, hn.bare, ho.bare, ht.bare, optionMap_bare hd, map_bare ha⟩),
    .cons h (List.rel_append (List.rel_append (List.rel_append (List.rel_append hn.spans ho.spans)
      ht.spans) (toList_spans hd)) (flatMap_spans ha))⟩

theorem alike_union {o o' : Option Ordinal} (hh : Alike R head head')
    (ho : Option.Rel (Alike R) o o') (hm : List.Forall₂ (Alike R) ms ms') :
    Alike R (Member.union head o ms) (.union head' o' ms') :=
  ⟨(Member.union.injEq ..).mpr ⟨hh.bare, optionMap_bare ho, eraseMembers_eq hm⟩,
    List.rel_append (List.rel_append hh.spans (toList_spans ho)) (rel_memberSpans hm)⟩

theorem alike_anonymousUnion (h : R span span')
    (ha : List.Forall₂ (Alike R) annotations annotations') (hm : List.Forall₂ (Alike R) ms ms') :
    Alike R (Member.anonymousUnion span annotations ms)
      (.anonymousUnion span' annotations' ms') :=
  ⟨(Member.anonymousUnion.injEq ..).mpr ⟨rfl, map_bare ha, eraseMembers_eq hm⟩,
    .cons h (List.rel_append (flatMap_spans ha) (rel_memberSpans hm))⟩

theorem alike_group (hh : Alike R head head') (hm : List.Forall₂ (Alike R) ms ms') :
    Alike R (Member.group head ms) (.group head' ms') :=
  ⟨(Member.group.injEq ..).mpr ⟨hh.bare, eraseMembers_eq hm⟩,
    List.rel_append hh.spans (rel_memberSpans hm)⟩

theorem alike_memberDecl {d d' : Decl} (h : Alike R d d') : Alike R (Member.decl d) (.decl d') :=
  ⟨congrArg Member.decl h.bare, h.spans⟩

theorem alike_interfaceMethod {m m' : Method} (h : Alike R m m') :
    Alike R (InterfaceMember.method m) (.method m') :=
  ⟨congrArg InterfaceMember.method h.bare, h.spans⟩

theorem alike_interfaceDecl {d d' : Decl} (h : Alike R d d') :
    Alike R (InterfaceMember.decl d) (.decl d') :=
  ⟨congrArg InterfaceMember.decl h.bare, h.spans⟩

theorem alike_module {id id' : FileId} {ds ds' : List Decl} (hid : Alike R id id')
    (ha : List.Forall₂ (Alike R) annotations annotations')
    (hd : List.Forall₂ (Alike R) ds ds') :
    Alike R (⟨id, annotations, ds⟩ : Module) ⟨id', annotations', ds'⟩ :=
  ⟨(Module.mk.injEq ..).mpr ⟨hid.bare, map_bare ha, map_bare hd⟩,
    List.rel_append (List.rel_append hid.spans (flatMap_spans ha)) (flatMap_spans hd)⟩

end Nodes

end SchemaLang
