import SchemaLang.Proofs.Spans.Trees
import SchemaLang.Proofs.Varying.Productions

/-!
# Parsing and spans

On lexemes with the same tokens and related spans the parser gives modules that are alike, or it
stops for one cause at related spans, as long as the relation is kept by `Span.cover`:
`ofLexemes_alike`.
-/

namespace SchemaLang

/-- The relation is kept when spans are joined. -/
def CoverClosed (R : Span → Span → Prop) : Prop :=
  ∀ {a a' b b'}, R a a' → R b b' → R (a.cover b) (a'.cover b')

/-- The variation of spans alone. -/
def Variation.ofSpans (R : Span → Span → Prop) (hR : CoverClosed R) : Variation where
  span := R
  name := Eq
  cover := hR
  list_iff := by rintro n _ rfl; exact Iff.rfl
  target_eq := by rintro n _ rfl; rfl

theorem Token.varied_refl {V : Variation} (h : ∀ n, V.name n n) (t : Token) : t.Varied V t := by
  cases t with
  | name n => exact .name (h n)
  | _ => exact .same nofun

theorem GrammarCause.Varied.eq {V : Variation} (h : ∀ {n n'}, V.name n n' → n = n')
    {c c' : GrammarCause} (hc : c.Varied V c') : c = c' := by
  cases hc with
  | unexpectedToken tokens expected =>
    cases tokens with
    | name hn => rw [h hn]
    | same => rfl
  | expectedKeyword hn => rw [h hn]
  | unexpectedTypeParameters _ hns =>
    have hnames := hns.imp fun _ _ => h
    rw [List.forall₂_eq_eq_eq] at hnames
    rw [hnames]
  | unknownTarget hn => rw [h hn]
  | same => rfl

theorem rel_option_imp {α β : Type} {S T : α → β → Prop} {o : Option α} {o' : Option β}
    (h : Option.Rel S o o') (himp : ∀ a b, S a b → T a b) : Option.Rel T o o' := by
  cases h with
  | some h => exact .some (himp _ _ h)
  | none => exact .none

/-! ## Trees that vary in spans are alike -/

section Alike

variable {R : Span → Span → Prop} {hR : CoverClosed R}

theorem Ident.Varied.alike {i i' : Ident} (h : i.Varied (.ofSpans R hR) i') : Alike R i i' :=
  ⟨congrArg (Ident.mk _) h.name, .cons h.span .nil⟩

theorem alike_idents {is is' : List Ident} (h : List.Forall₂ (Ident.Varied (.ofSpans R hR)) is is') :
    List.Forall₂ (Alike R) is is' :=
  h.imp fun _ _ hi => hi.alike

theorem Path.Varied.alike {p p' : Path} (h : p.Varied (.ofSpans R hR) p') : Alike R p p' :=
  alike_path h.span (alike_idents h.segments)

theorem ImportPath.Varied.alike {i i' : ImportPath} (h : i.Varied (.ofSpans R hR) i') :
    Alike R i i' :=
  ⟨congrArg (ImportPath.mk _) h.path, .cons h.span .nil⟩

theorem Ordinal.Varied.alike {o o' : Ordinal} (h : o.Varied (.ofSpans R hR) o') : Alike R o o' :=
  ⟨congrArg (Ordinal.mk _) h.value, .cons h.span .nil⟩

theorem FileId.Varied.alike {i i' : FileId} (h : i.Varied (.ofSpans R hR) i') : Alike R i i' :=
  ⟨congrArg (FileId.mk _) h.value, .cons h.span .nil⟩

theorem TypeRef.Varied.alike {t t' : TypeRef} (h : t.Varied (.ofSpans R hR) t') :
    Alike R t t' := by
  induction h with
  | named path => exact alike_named path.alike
  | list spans _ ih => exact alike_listType spans ih
  | imported spans source segments =>
    exact alike_imported spans source.alike (alike_idents segments)

mutual

theorem Literal.Varied.alike : ∀ {l l' : Literal}, l.Varied (.ofSpans R hR) l' → Alike R l l'
  | _, _, .void h | _, _, .bool _ h | _, _, .int _ h | _, _, .float _ h | _, _, .text _ h =>
    ⟨rfl, .cons h .nil⟩
  | _, _, .name path => alike_name path.alike
  | .list _ _, _, .list h items => alike_listLiteral h (alike_items items)
  | .struct _ _, _, .struct h names values => alike_structLiteral h (alike_fields names values)

theorem alike_items : ∀ {ls ls' : List Literal},
    List.Forall₂ (Literal.Varied (.ofSpans R hR)) ls ls' → List.Forall₂ (Alike R) ls ls'
  | [], _, .nil => .nil
  | _ :: _, _, .cons h hs => .cons h.alike (alike_items hs)

theorem alike_fields : ∀ {fs fs' : List (Ident × Literal)},
    List.Forall₂ (Ident.Varied (.ofSpans R hR)) (fs.map Prod.fst) (fs'.map Prod.fst) →
    List.Forall₂ (Literal.Varied (.ofSpans R hR)) (fs.map Prod.snd) (fs'.map Prod.snd) →
    List.Forall₂ (fun f f' => Alike R f.1 f'.1 ∧ Alike R f.2 f'.2) fs fs'
  | [], [], _, _ => .nil
  | _ :: _, _ :: _, .cons hi his, .cons hl hls => .cons ⟨hi.alike, hl.alike⟩ (alike_fields his hls)

end

theorem alike_value {o o' : Option Literal}
    (h : Option.Rel (Literal.Varied (.ofSpans R hR)) o o') : Option.Rel (Alike R) o o' :=
  rel_option_imp h fun _ _ hl => hl.alike

theorem Application.Varied.alike {a a' : Application} (h : a.Varied (.ofSpans R hR) a') :
    Alike R a a' :=
  alike_application h.span h.name.alike (alike_value h.value)

theorem alike_annotations {as as' : List Application}
    (h : List.Forall₂ (Application.Varied (.ofSpans R hR)) as as') :
    List.Forall₂ (Alike R) as as' :=
  h.imp fun _ _ ha => ha.alike

theorem Enumerant.Varied.alike {e e' : Enumerant} (h : e.Varied (.ofSpans R hR) e') :
    Alike R e e' :=
  alike_enumerant h.span h.name.alike h.ordinal.alike (alike_annotations h.annotations)

theorem Param.Varied.alike {p p' : Param} (h : p.Varied (.ofSpans R hR) p') : Alike R p p' :=
  alike_param h.span h.name.alike h.type.alike (alike_value h.default)
    (alike_annotations h.annotations)

theorem alike_params {ps ps' : List Param}
    (h : List.Forall₂ (Param.Varied (.ofSpans R hR)) ps ps') : List.Forall₂ (Alike R) ps ps' :=
  h.imp fun _ _ hp => hp.alike

theorem Method.Varied.alike {m m' : Method} (h : m.Varied (.ofSpans R hR) m') : Alike R m m' :=
  alike_method h.span h.name.alike h.ordinal.alike (alike_params h.params)
    (rel_option_imp h.results fun _ _ => alike_params) (alike_annotations h.annotations)

theorem Head.Varied.alike {h h' : Head} (hh : h.Varied (.ofSpans R hR) h') : Alike R h h' :=
  alike_head hh.span hh.name.alike (alike_annotations hh.annotations)

mutual

theorem Decl.Varied.alike : ∀ {d d' : Decl}, d.Varied (.ofSpans R hR) d' → Alike R d d'
  | _, _, .const h => alike_const h.span h.name.alike h.type.alike h.value.alike
      (alike_annotations h.annotations)
  | .struct _ _, _, .struct head members => alike_struct head.alike (alike_members members)
  | _, _, .enum h => alike_enum h.span h.name.alike (alike_annotations h.annotations)
      (h.enumerants.imp fun _ _ he => he.alike)
  | .interface _ _ _, _, .interface head bases members =>
    alike_interface head.alike (bases.imp fun _ _ ht => ht.alike)
      (alike_interfaceMembers members)
  | _, _, .annotationDecl h => alike_annotationDecl h.span h.name.alike h.targets h.type.alike
      (alike_annotations h.annotations)
  | _, _, .pathAlias h =>
    alike_pathAlias h.span (rel_option_imp h.name fun _ _ hi => hi.alike) h.target.alike
  | _, _, .importAlias h =>
    alike_importAlias h.span (rel_option_imp h.name fun _ _ hi => hi.alike) h.source.alike
      (alike_idents h.path)

theorem Member.Varied.alike : ∀ {m m' : Member}, m.Varied (.ofSpans R hR) m' → Alike R m m'
  | _, _, .field h => alike_field h.span h.name.alike h.ordinal.alike h.type.alike
      (alike_value h.default) (alike_annotations h.annotations)
  | .union _ _ _, _, .union head ordinal members =>
    alike_union head.alike (rel_option_imp ordinal fun _ _ ho => ho.alike) (alike_members members)
  | .anonymousUnion _ _ _, _, .anonymousUnion h annotations members =>
    alike_anonymousUnion h (alike_annotations annotations) (alike_members members)
  | .group _ _, _, .group head members => alike_group head.alike (alike_members members)
  | .decl _, _, .decl h => alike_memberDecl h.alike

theorem alike_members : ∀ {ms ms' : List Member},
    List.Forall₂ (Member.Varied (.ofSpans R hR)) ms ms' → List.Forall₂ (Alike R) ms ms'
  | [], _, .nil => .nil
  | _ :: _, _, .cons h hs => .cons h.alike (alike_members hs)

theorem InterfaceMember.Varied.alike : ∀ {m m' : InterfaceMember},
    m.Varied (.ofSpans R hR) m' → Alike R m m'
  | _, _, .method h => alike_interfaceMethod h.alike
  | .decl _, _, .decl h => alike_interfaceDecl h.alike

theorem alike_interfaceMembers : ∀ {ms ms' : List InterfaceMember},
    List.Forall₂ (InterfaceMember.Varied (.ofSpans R hR)) ms ms' → List.Forall₂ (Alike R) ms ms'
  | [], _, .nil => .nil
  | _ :: _, _, .cons h hs => .cons h.alike (alike_interfaceMembers hs)

end

theorem Module.Varied.alike {m m' : Module} (h : m.Varied (.ofSpans R hR) m') : Alike R m m' :=
  alike_module h.id.alike (alike_annotations h.annotations) (h.decls.imp fun _ _ hd => hd.alike)

end Alike

/-- Lexemes with the same tokens at related spans are read as modules that are alike, or rejected
for the same cause at related spans. -/
theorem ofLexemes_alike {R : Span → Span → Prop} (hR : CoverClosed R)
    {lexemes lexemes' : List Lexeme} {stop stop' : Nat}
    (hlexemes : List.Forall₂ (fun x x' => x.token = x'.token ∧ R x.span x'.span) lexemes lexemes')
    (hstop : R (.point stop) (.point stop')) :
    SameOutcome (.ofSpans R hR) (Alike R) (Module.ofLexemes lexemes stop)
      (Module.ofLexemes lexemes' stop') := by
  have hvaried : List.Forall₂ (Lexeme.Varied (.ofSpans R hR)) lexemes lexemes' :=
    hlexemes.imp fun x x' ⟨htoken, hspan⟩ =>
      ⟨htoken ▸ Token.varied_refl (fun _ => rfl) x.token, hspan⟩
  exact (ofLexemes_varied hvaried hstop).mono fun _ _ hm => hm.alike

end SchemaLang
