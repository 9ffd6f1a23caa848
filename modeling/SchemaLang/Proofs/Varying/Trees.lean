import Mathlib.Data.List.Forall2
import SchemaLang.Tree
import SchemaLang.Tree.Error

/-!
# Trees that vary in spans and names

Two trees of one shape that differ at most in the spans of their nodes and in the names that stand
in them, where the spans are related one by one, and so are the names.  A `Variation` is such a pair
of relations; the grammar can tell the two trees apart neither by a span nor by a name.
-/

namespace SchemaLang

/-- What two spans and what two names may stand for each other.  Spans that are joined stay related,
and a word that the grammar knows stands for itself alone. -/
structure Variation where
  span : Span → Span → Prop
  name : String → String → Prop
  cover : ∀ {a a' b b'}, span a a' → span b b' → span (a.cover b) (a'.cover b')
  list_iff : ∀ {n n'}, name n n' → (n = "List" ↔ n' = "List")
  target_eq : ∀ {n n'}, name n n' → Target.ofName? n = Target.ofName? n'

variable (V : Variation)

/-! ## Names and numbers -/

structure Ident.Varied (i i' : Ident) : Prop where
  span : V.span i.span i'.span
  name : V.name i.name i'.name

/-- The paths differ by the variation; a path that was parsed has a segment. -/
structure Path.Varied (p p' : Path) : Prop where
  span : V.span p.span p'.span
  segments : List.Forall₂ (Ident.Varied V) p.segments p'.segments
  nonempty : p.segments ≠ []

structure ImportPath.Varied (i i' : ImportPath) : Prop where
  span : V.span i.span i'.span
  path : i.path = i'.path

structure Ordinal.Varied (o o' : Ordinal) : Prop where
  span : V.span o.span o'.span
  value : o.value = o'.value

structure FileId.Varied (i i' : FileId) : Prop where
  span : V.span i.span i'.span
  value : i.value = i'.value

/-! ## Types and literals -/

inductive TypeRef.Varied : TypeRef → TypeRef → Prop
  | named {p p' : Path} (path : p.Varied V p') : Varied (.named p) (.named p')
  | list {span span' : Span} {t t' : TypeRef} (spans : V.span span span')
    (element : Varied t t') : Varied (.list span t) (.list span' t')
  | imported {span span' : Span} {i i' : ImportPath} {is is' : List Ident}
    (spans : V.span span span') (source : i.Varied V i')
    (segments : List.Forall₂ (Ident.Varied V) is is') :
    Varied (.imported span i is) (.imported span' i' is')

inductive Literal.Varied : Literal → Literal → Prop
  | void {span span' : Span} (spans : V.span span span') : Varied (.void span) (.void span')
  | bool {span span' : Span} (b : Bool) (spans : V.span span span') :
    Varied (.bool span b) (.bool span' b)
  | int {span span' : Span} (s : String) (spans : V.span span span') :
    Varied (.int span s) (.int span' s)
  | float {span span' : Span} (s : String) (spans : V.span span span') :
    Varied (.float span s) (.float span' s)
  | text {span span' : Span} (s : String) (spans : V.span span span') :
    Varied (.text span s) (.text span' s)
  | name {p p' : Path} (path : p.Varied V p') : Varied (.name p) (.name p')
  | list {span span' : Span} {ls ls' : List Literal} (spans : V.span span span')
    (items : List.Forall₂ Varied ls ls') : Varied (.list span ls) (.list span' ls')
  | struct {span span' : Span} {fs fs' : List (Ident × Literal)} (spans : V.span span span')
    (names : List.Forall₂ (Ident.Varied V) (fs.map Prod.fst) (fs'.map Prod.fst))
    (values : List.Forall₂ Varied (fs.map Prod.snd) (fs'.map Prod.snd)) :
    Varied (.struct span fs) (.struct span' fs')

structure Application.Varied (a a' : Application) : Prop where
  span : V.span a.span a'.span
  name : a.name.Varied V a'.name
  value : Option.Rel (Literal.Varied V) a.value a'.value

/-! ## Declarations -/

structure Const.Varied (d d' : Const) : Prop where
  span : V.span d.span d'.span
  name : d.name.Varied V d'.name
  type : d.type.Varied V d'.type
  value : d.value.Varied V d'.value
  annotations : List.Forall₂ (Application.Varied V) d.annotations d'.annotations

structure Field.Varied (f f' : Field) : Prop where
  span : V.span f.span f'.span
  name : f.name.Varied V f'.name
  ordinal : f.ordinal.Varied V f'.ordinal
  type : f.type.Varied V f'.type
  default : Option.Rel (Literal.Varied V) f.default f'.default
  annotations : List.Forall₂ (Application.Varied V) f.annotations f'.annotations

structure Enumerant.Varied (e e' : Enumerant) : Prop where
  span : V.span e.span e'.span
  name : e.name.Varied V e'.name
  ordinal : e.ordinal.Varied V e'.ordinal
  annotations : List.Forall₂ (Application.Varied V) e.annotations e'.annotations

structure Enum.Varied (d d' : Enum) : Prop where
  span : V.span d.span d'.span
  name : d.name.Varied V d'.name
  annotations : List.Forall₂ (Application.Varied V) d.annotations d'.annotations
  enumerants : List.Forall₂ (Enumerant.Varied V) d.enumerants d'.enumerants

structure Param.Varied (p p' : Param) : Prop where
  span : V.span p.span p'.span
  name : p.name.Varied V p'.name
  type : p.type.Varied V p'.type
  default : Option.Rel (Literal.Varied V) p.default p'.default
  annotations : List.Forall₂ (Application.Varied V) p.annotations p'.annotations

structure Method.Varied (m m' : Method) : Prop where
  span : V.span m.span m'.span
  name : m.name.Varied V m'.name
  ordinal : m.ordinal.Varied V m'.ordinal
  params : List.Forall₂ (Param.Varied V) m.params m'.params
  results : Option.Rel (List.Forall₂ (Param.Varied V)) m.results m'.results
  annotations : List.Forall₂ (Application.Varied V) m.annotations m'.annotations

structure AnnotationDecl.Varied (d d' : AnnotationDecl) : Prop where
  span : V.span d.span d'.span
  name : d.name.Varied V d'.name
  targets : List.Forall₂ (fun t t' => V.span t.1 t'.1 ∧ t.2 = t'.2) d.targets d'.targets
  type : d.type.Varied V d'.type
  annotations : List.Forall₂ (Application.Varied V) d.annotations d'.annotations

structure Alias.Varied (a a' : Alias) : Prop where
  span : V.span a.span a'.span
  name : Option.Rel (Ident.Varied V) a.name a'.name
  target : a.target.Varied V a'.target

structure ImportAlias.Varied (a a' : ImportAlias) : Prop where
  span : V.span a.span a'.span
  name : Option.Rel (Ident.Varied V) a.name a'.name
  source : a.source.Varied V a'.source
  path : List.Forall₂ (Ident.Varied V) a.path a'.path

structure Head.Varied (h h' : Head) : Prop where
  span : V.span h.span h'.span
  name : h.name.Varied V h'.name
  annotations : List.Forall₂ (Application.Varied V) h.annotations h'.annotations

mutual

inductive Decl.Varied : Decl → Decl → Prop
  | const {d d' : Const} (const : d.Varied V d') : Decl.Varied (.const d) (.const d')
  | struct {h h' : Head} {ms ms' : List Member} (head : h.Varied V h')
    (members : List.Forall₂ Member.Varied ms ms') : Decl.Varied (.struct h ms) (.struct h' ms')
  | enum {d d' : Enum} (enum : d.Varied V d') : Decl.Varied (.enum d) (.enum d')
  | interface {h h' : Head} {ts ts' : List TypeRef} {ms ms' : List InterfaceMember}
    (head : h.Varied V h') (bases : List.Forall₂ (TypeRef.Varied V) ts ts')
    (members : List.Forall₂ InterfaceMember.Varied ms ms') :
    Decl.Varied (.interface h ts ms) (.interface h' ts' ms')
  | annotationDecl {d d' : AnnotationDecl} (bound : d.Varied V d') :
    Decl.Varied (.annotationDecl d) (.annotationDecl d')
  | pathAlias {a a' : Alias} (bound : a.Varied V a') : Decl.Varied (.pathAlias a) (.pathAlias a')
  | importAlias {a a' : ImportAlias} (bound : a.Varied V a') :
    Decl.Varied (.importAlias a) (.importAlias a')

inductive Member.Varied : Member → Member → Prop
  | field {f f' : Field} (field : f.Varied V f') : Member.Varied (.field f) (.field f')
  | union {h h' : Head} {o o' : Option Ordinal} {ms ms' : List Member} (head : h.Varied V h')
    (ordinal : Option.Rel (Ordinal.Varied V) o o')
    (members : List.Forall₂ Member.Varied ms ms') : Member.Varied (.union h o ms) (.union h' o' ms')
  | anonymousUnion {span span' : Span} {as as' : List Application} {ms ms' : List Member}
    (spans : V.span span span') (annotations : List.Forall₂ (Application.Varied V) as as')
    (members : List.Forall₂ Member.Varied ms ms') :
    Member.Varied (.anonymousUnion span as ms) (.anonymousUnion span' as' ms')
  | group {h h' : Head} {ms ms' : List Member} (head : h.Varied V h')
    (members : List.Forall₂ Member.Varied ms ms') : Member.Varied (.group h ms) (.group h' ms')
  | decl {d d' : Decl} (decl : Decl.Varied d d') : Member.Varied (.decl d) (.decl d')

inductive InterfaceMember.Varied : InterfaceMember → InterfaceMember → Prop
  | method {m m' : Method} (method : m.Varied V m') :
    InterfaceMember.Varied (.method m) (.method m')
  | decl {d d' : Decl} (decl : Decl.Varied d d') : InterfaceMember.Varied (.decl d) (.decl d')

end

structure Module.Varied (m m' : Module) : Prop where
  id : m.id.Varied V m'.id
  annotations : List.Forall₂ (Application.Varied V) m.annotations m'.annotations
  decls : List.Forall₂ (Decl.Varied V) m.decls m'.decls

/-! ## Tokens and errors -/

/-- The tokens are names that may stand for each other, or the same. -/
inductive Token.Varied : Token → Token → Prop
  | name {n n' : String} (names : V.name n n') : Varied (.name n) (.name n')
  | same {t : Token} (other : ∀ n, t ≠ .name n) : Varied t t

/-- The cause tells no name. -/
def GrammarCause.Nameless : GrammarCause → Prop
  | .unexpectedToken _ _ | .expectedKeyword _ | .unexpectedTypeParameters _ | .unknownTarget _ =>
    False
  | _ => True

/-- The causes tell names that may stand for each other. -/
inductive GrammarCause.Varied : GrammarCause → GrammarCause → Prop
  | unexpectedToken {t t' : Token} (tokens : t.Varied V t') (expected : String) :
    Varied (.unexpectedToken t expected) (.unexpectedToken t' expected)
  | expectedKeyword {n n' : String} (names : V.name n n') :
    Varied (.expectedKeyword n) (.expectedKeyword n')
  | unexpectedTypeParameters {ns ns' : List String} (nonempty : ns ≠ [])
    (names : List.Forall₂ V.name ns ns') :
    Varied (.unexpectedTypeParameters (String.intercalate "." ns))
      (.unexpectedTypeParameters (String.intercalate "." ns'))
  | unknownTarget {n n' : String} (names : V.name n n') :
    Varied (.unknownTarget n) (.unknownTarget n')
  | same {c : GrammarCause} (nameless : c.Nameless) : Varied c c

/-! ## Kinds of results -/

/-- A kind of result, with what it means that two results differ by a variation. -/
class Related (α : Type) where
  Rel : Variation → α → α → Prop

instance : Related Span := ⟨Variation.span⟩

instance : Related String := ⟨fun _ => Eq⟩

instance : Related Nat := ⟨fun _ => Eq⟩

instance : Related Bool := ⟨fun _ => Eq⟩

instance : Related Target := ⟨fun _ => Eq⟩

instance : Related Ident := ⟨Ident.Varied⟩

instance : Related Path := ⟨Path.Varied⟩

instance : Related ImportPath := ⟨ImportPath.Varied⟩

instance : Related Ordinal := ⟨Ordinal.Varied⟩

instance : Related FileId := ⟨FileId.Varied⟩

instance : Related TypeRef := ⟨TypeRef.Varied⟩

instance : Related Literal := ⟨Literal.Varied⟩

instance : Related Application := ⟨Application.Varied⟩

instance : Related Enumerant := ⟨Enumerant.Varied⟩

instance : Related Param := ⟨Param.Varied⟩

instance : Related Method := ⟨Method.Varied⟩

instance : Related Decl := ⟨Decl.Varied⟩

instance : Related Member := ⟨Member.Varied⟩

instance : Related InterfaceMember := ⟨InterfaceMember.Varied⟩

instance : Related Module := ⟨Module.Varied⟩

variable {α β : Type}

instance [Related α] : Related (List α) := ⟨fun V => List.Forall₂ (Related.Rel V)⟩

instance [Related α] : Related (Option α) := ⟨fun V => Option.Rel (Related.Rel V)⟩

instance [Related α] [Related β] : Related (α × β) :=
  ⟨fun V x x' => Related.Rel V x.1 x'.1 ∧ Related.Rel V x.2 x'.2⟩

instance [Related α] [Related β] : Related (α ⊕ β) :=
  ⟨fun V => Sum.LiftRel (Related.Rel V) (Related.Rel V)⟩

/-! ## What the grammar looks at -/

variable {V}

theorem TypeRef.Varied.span {t t' : TypeRef} (h : t.Varied V t') : V.span t.span t'.span := by
  cases h with
  | named path => exact path.span
  | list spans => exact spans
  | imported spans => exact spans

theorem Path.Varied.names {p p' : Path} (h : p.Varied V p') :
    List.Forall₂ V.name (p.segments.map Ident.name) (p'.segments.map Ident.name) :=
  List.rel_map (fun _ _ hi => hi.name) h.segments

/-- Names that may stand for each other are the name of lists alike. -/
theorem isList_iff {ns ns' : List String} (h : List.Forall₂ V.name ns ns') :
    ns = ["List"] ↔ ns' = ["List"] := by
  cases h with
  | nil => exact Iff.rfl
  | cons hn hns =>
    cases hns with
    | nil => simpa using V.list_iff hn
    | cons => simp

theorem Member.Varied.isAnonymousUnion {m m' : Member} (h : m.Varied V m') :
    m.isAnonymousUnion = m'.isAnonymousUnion := by
  cases h <;> rfl

/-- Both bodies have an anonymous union or both have none. -/
theorem any_isAnonymousUnion_eq {ms ms' : List Member}
    (h : List.Forall₂ (Member.Varied V) ms ms') :
    ms.any Member.isAnonymousUnion = ms'.any Member.isAnonymousUnion := by
  induction h with
  | nil => rfl
  | cons h _ ih => rw [List.any_cons, List.any_cons, h.isAnonymousUnion, ih]

end SchemaLang
