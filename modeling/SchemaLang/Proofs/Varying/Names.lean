import SchemaLang.Proofs.Naming.Lookup
import SchemaLang.Proofs.Varying.Productions

/-!
# The parser binds no names

With a function applied to the names in its lexemes the parser gives the same module with the
function applied to the names in it, or the same error with the function applied to the names that
it tells: `ofLexemes_mapNames`.  The function need not be injective; it must only keep the words
that the grammar knows apart from all others.
-/

namespace SchemaLang

/-! ## Names mapped by a function -/

section Maps

variable (f : String → String)

def Token.mapNames : Token → Token
  | .name n => .name (f n)
  | t => t

def Lexeme.mapNames (x : Lexeme) : Lexeme := ⟨x.token.mapNames f, x.span⟩

def Ident.mapNames (i : Ident) : Ident := ⟨i.span, f i.name⟩

def Path.mapNames (p : Path) : Path := ⟨p.span, p.segments.map (Ident.mapNames f)⟩

def TypeRef.mapNames : TypeRef → TypeRef
  | .named path => .named (path.mapNames f)
  | .list span element => .list span element.mapNames
  | .imported span source segments => .imported span source (segments.map (Ident.mapNames f))

mutual

def Literal.mapNames : Literal → Literal
  | .name path => .name (path.mapNames f)
  | .list span items => .list span (mapItems items)
  | .struct span fields => .struct span (mapFields fields)
  | l => l

/-- The items of a list with their names mapped. -/
def mapItems : List Literal → List Literal
  | [] => []
  | l :: ls => l.mapNames :: mapItems ls

/-- The fields of a struct with their names mapped. -/
def mapFields : List (Ident × Literal) → List (Ident × Literal)
  | [] => []
  | (i, l) :: fields => (i.mapNames f, l.mapNames) :: mapFields fields

end

def Application.mapNames (a : Application) : Application :=
  ⟨a.span, a.name.mapNames f, a.value.map (Literal.mapNames f)⟩

def Const.mapNames (d : Const) : Const :=
  ⟨d.span, d.name.mapNames f, d.type.mapNames f, d.value.mapNames f,
    d.annotations.map (Application.mapNames f)⟩

def Field.mapNames (d : Field) : Field :=
  ⟨d.span, d.name.mapNames f, d.ordinal, d.type.mapNames f, d.default.map (Literal.mapNames f),
    d.annotations.map (Application.mapNames f)⟩

def Enumerant.mapNames (e : Enumerant) : Enumerant :=
  ⟨e.span, e.name.mapNames f, e.ordinal, e.annotations.map (Application.mapNames f)⟩

def Enum.mapNames (d : Enum) : Enum :=
  ⟨d.span, d.name.mapNames f, d.annotations.map (Application.mapNames f),
    d.enumerants.map (Enumerant.mapNames f)⟩

def Param.mapNames (p : Param) : Param :=
  ⟨p.span, p.name.mapNames f, p.type.mapNames f, p.default.map (Literal.mapNames f),
    p.annotations.map (Application.mapNames f)⟩

def Method.mapNames (m : Method) : Method :=
  ⟨m.span, m.name.mapNames f, m.ordinal, m.params.map (Param.mapNames f),
    m.results.map (List.map (Param.mapNames f)), m.annotations.map (Application.mapNames f)⟩

def AnnotationDecl.mapNames (d : AnnotationDecl) : AnnotationDecl :=
  ⟨d.span, d.name.mapNames f, d.targets, d.type.mapNames f,
    d.annotations.map (Application.mapNames f)⟩

def Alias.mapNames (a : Alias) : Alias :=
  ⟨a.span, a.name.map (Ident.mapNames f), a.target.mapNames f⟩

def ImportAlias.mapNames (a : ImportAlias) : ImportAlias :=
  ⟨a.span, a.name.map (Ident.mapNames f), a.source, a.path.map (Ident.mapNames f)⟩

def Head.mapNames (h : Head) : Head :=
  ⟨h.span, h.name.mapNames f, h.annotations.map (Application.mapNames f)⟩

mutual

def Decl.mapNames : Decl → Decl
  | .const d => .const (d.mapNames f)
  | .struct head ms => .struct (head.mapNames f) (mapMembers ms)
  | .enum d => .enum (d.mapNames f)
  | .interface head bases ms =>
    .interface (head.mapNames f) (bases.map (TypeRef.mapNames f)) (mapInterfaceMembers ms)
  | .annotationDecl d => .annotationDecl (d.mapNames f)
  | .pathAlias a => .pathAlias (a.mapNames f)
  | .importAlias a => .importAlias (a.mapNames f)

def Member.mapNames : Member → Member
  | .field d => .field (d.mapNames f)
  | .union head o ms => .union (head.mapNames f) o (mapMembers ms)
  | .anonymousUnion span annotations ms =>
    .anonymousUnion span (annotations.map (Application.mapNames f)) (mapMembers ms)
  | .group head ms => .group (head.mapNames f) (mapMembers ms)
  | .decl d => .decl d.mapNames

/-- The members of a body with their names mapped. -/
def mapMembers : List Member → List Member
  | [] => []
  | m :: ms => m.mapNames :: mapMembers ms

def InterfaceMember.mapNames : InterfaceMember → InterfaceMember
  | .method m => .method (m.mapNames f)
  | .decl d => .decl d.mapNames

/-- The items of an interface with their names mapped. -/
def mapInterfaceMembers : List InterfaceMember → List InterfaceMember
  | [] => []
  | m :: ms => m.mapNames :: mapInterfaceMembers ms

end

def Module.mapNames (m : Module) : Module :=
  ⟨m.id, m.annotations.map (Application.mapNames f), m.decls.map (Decl.mapNames f)⟩

/-- The cause with the names that it tells mapped; a path is told by its dotted name. -/
def GrammarCause.mapNames : GrammarCause → GrammarCause
  | .unexpectedToken found expected => .unexpectedToken (found.mapNames f) expected
  | .expectedKeyword found => .expectedKeyword (f found)
  | .unexpectedTypeParameters path =>
    .unexpectedTypeParameters (".".intercalate ((dottedNames path).map f))
  | .unknownTarget word => .unknownTarget (f word)
  | cause => cause

def GrammarError.mapNames (e : GrammarError) : GrammarError := ⟨e.span, e.cause.mapNames f⟩

end Maps

/-! ## The variation of names by a function -/

/-- The words that the grammar looks for among the names. -/
def knownWords : List String := "List" :: Target.named.map Target.name

/-- The function keeps the known words and maps no other name to one of them. -/
structure KeepsKnown (f : String → String) : Prop where
  fixes : ∀ n ∈ knownWords, f n = n
  avoids : ∀ n, f n ∈ knownWords → n ∈ knownWords

/-- The lexemes contain the name. -/
def HasName (lexemes : List Lexeme) (n : String) : Prop := ∃ x ∈ lexemes, x.token = .name n

theorem ofName?_eq_none {n : String} (h : n ∉ knownWords) : Target.ofName? n = none := by
  unfold Target.ofName?
  rw [List.find?_eq_none]
  intro t ht hname
  have hn : t.name = n := by simpa using hname
  exact h (List.mem_cons_of_mem _ (hn ▸ List.mem_map_of_mem ht))

/-- Names that the lexemes contain stand for what the function maps them to. -/
def Variation.ofNames {f : String → String} (hf : KeepsKnown f) (lexemes : List Lexeme) :
    Variation where
  span := Eq
  name n n' := n' = f n ∧ HasName lexemes n
  cover := by rintro a _ b _ rfl rfl; rfl
  list_iff := by
    rintro n _ ⟨rfl, -⟩
    have hlist : "List" ∈ knownWords := List.mem_cons_self
    constructor
    · rintro rfl
      exact hf.fixes _ hlist
    · intro h
      have hn : n ∈ knownWords := hf.avoids n (by rwa [h])
      rw [← hf.fixes n hn, h]
  target_eq := by
    rintro n _ ⟨rfl, -⟩
    by_cases hn : n ∈ knownWords
    · rw [hf.fixes n hn]
    · rw [ofName?_eq_none hn, ofName?_eq_none (mt (hf.avoids n) hn)]

section Equations

variable {f : String → String} {hf : KeepsKnown f} {lexemes : List Lexeme}

theorem eq_map_of_forall₂ {α : Type} {S : α → α → Prop} {g : α → α} {xs xs' : List α}
    (h : List.Forall₂ S xs xs') (hg : ∀ x x', S x x' → x' = g x) : xs' = xs.map g := by
  induction h with
  | nil => rfl
  | cons h _ ih => rw [List.map_cons, ← hg _ _ h, ← ih]

theorem forall_left_of_forall₂ {α β : Type} {S : α → β → Prop} {P : α → Prop} {xs : List α}
    {ys : List β} (h : List.Forall₂ S xs ys) (hP : ∀ x y, S x y → P x) : ∀ x ∈ xs, P x := by
  induction h with
  | nil => exact nofun
  | cons h _ ih => exact List.forall_mem_cons.2 ⟨hP _ _ h, ih⟩

theorem eq_map_of_rel {α : Type} {S : α → α → Prop} {g : α → α} {o o' : Option α}
    (h : Option.Rel S o o') (hg : ∀ x x', S x x' → x' = g x) : o' = o.map g := by
  cases h with
  | some h => exact congrArg some (hg _ _ h)
  | none => rfl

theorem Ident.Varied.eq_mapNames {i i' : Ident} (h : i.Varied (.ofNames hf lexemes) i') :
    i' = i.mapNames f :=
  (Ident.mk.injEq ..).mpr ⟨h.span.symm, h.name.1⟩

theorem eq_map_idents {is is' : List Ident}
    (h : List.Forall₂ (Ident.Varied (.ofNames hf lexemes)) is is') :
    is' = is.map (Ident.mapNames f) :=
  eq_map_of_forall₂ h fun _ _ hi => hi.eq_mapNames

theorem Path.Varied.eq_mapNames {p p' : Path} (h : p.Varied (.ofNames hf lexemes) p') :
    p' = p.mapNames f :=
  (Path.mk.injEq ..).mpr ⟨h.span.symm, eq_map_idents h.segments⟩

theorem ImportPath.Varied.eq {i i' : ImportPath} (h : i.Varied (.ofNames hf lexemes) i') :
    i' = i :=
  (ImportPath.mk.injEq ..).mpr ⟨h.span.symm, h.path.symm⟩

theorem Ordinal.Varied.eq {o o' : Ordinal} (h : o.Varied (.ofNames hf lexemes) o') : o' = o :=
  (Ordinal.mk.injEq ..).mpr ⟨h.span.symm, h.value.symm⟩

theorem FileId.Varied.eq {i i' : FileId} (h : i.Varied (.ofNames hf lexemes) i') : i' = i :=
  (FileId.mk.injEq ..).mpr ⟨h.span.symm, h.value.symm⟩

theorem TypeRef.Varied.eq_mapNames {t t' : TypeRef} (h : t.Varied (.ofNames hf lexemes) t') :
    t' = t.mapNames f := by
  induction h with
  | named path => exact congrArg TypeRef.named path.eq_mapNames
  | list spans _ ih => exact (TypeRef.list.injEq ..).mpr ⟨spans.symm, ih⟩
  | imported spans source segments =>
    exact (TypeRef.imported.injEq ..).mpr ⟨spans.symm, source.eq, eq_map_idents segments⟩

mutual

theorem Literal.Varied.eq_mapNames : ∀ {l l' : Literal}, l.Varied (.ofNames hf lexemes) l' →
    l' = l.mapNames f
  | _, _, .void rfl | _, _, .bool _ rfl | _, _, .int _ rfl | _, _, .float _ rfl
  | _, _, .text _ rfl => rfl
  | _, _, .name path => congrArg Literal.name path.eq_mapNames
  | .list _ _, _, .list spans items =>
    (Literal.list.injEq ..).mpr ⟨spans.symm, eq_mapItems items⟩
  | .struct _ _, _, .struct spans names values =>
    (Literal.struct.injEq ..).mpr ⟨spans.symm, eq_mapFields names values⟩

theorem eq_mapItems : ∀ {ls ls' : List Literal},
    List.Forall₂ (Literal.Varied (.ofNames hf lexemes)) ls ls' → ls' = mapItems f ls
  | [], _, .nil => rfl
  | _ :: _, _, .cons h hs => (List.cons.injEq ..).mpr ⟨h.eq_mapNames, eq_mapItems hs⟩

theorem eq_mapFields : ∀ {fs fs' : List (Ident × Literal)},
    List.Forall₂ (Ident.Varied (.ofNames hf lexemes)) (fs.map Prod.fst) (fs'.map Prod.fst) →
    List.Forall₂ (Literal.Varied (.ofNames hf lexemes)) (fs.map Prod.snd) (fs'.map Prod.snd) →
    fs' = mapFields f fs
  | [], [], _, _ => rfl
  | (_, _) :: _, (_, _) :: _, .cons hi his, .cons hl hls =>
    (List.cons.injEq ..).mpr
      ⟨(Prod.mk.injEq ..).mpr ⟨hi.eq_mapNames, hl.eq_mapNames⟩, eq_mapFields his hls⟩

end

theorem eq_map_value {o o' : Option Literal}
    (h : Option.Rel (Literal.Varied (.ofNames hf lexemes)) o o') :
    o' = o.map (Literal.mapNames f) :=
  eq_map_of_rel h fun _ _ hl => hl.eq_mapNames

theorem Application.Varied.eq_mapNames {a a' : Application}
    (h : a.Varied (.ofNames hf lexemes) a') : a' = a.mapNames f :=
  (Application.mk.injEq ..).mpr ⟨h.span.symm, h.name.eq_mapNames, eq_map_value h.value⟩

theorem eq_map_annotations {as as' : List Application}
    (h : List.Forall₂ (Application.Varied (.ofNames hf lexemes)) as as') :
    as' = as.map (Application.mapNames f) :=
  eq_map_of_forall₂ h fun _ _ ha => ha.eq_mapNames

theorem Const.Varied.eq_mapNames {d d' : Const} (h : d.Varied (.ofNames hf lexemes) d') :
    d' = d.mapNames f :=
  (Const.mk.injEq ..).mpr ⟨h.span.symm, h.name.eq_mapNames, h.type.eq_mapNames,
    h.value.eq_mapNames, eq_map_annotations h.annotations⟩

theorem Field.Varied.eq_mapNames {d d' : Field} (h : d.Varied (.ofNames hf lexemes) d') :
    d' = d.mapNames f :=
  (Field.mk.injEq ..).mpr ⟨h.span.symm, h.name.eq_mapNames, h.ordinal.eq, h.type.eq_mapNames,
    eq_map_value h.default, eq_map_annotations h.annotations⟩

theorem Enumerant.Varied.eq_mapNames {e e' : Enumerant} (h : e.Varied (.ofNames hf lexemes) e') :
    e' = e.mapNames f :=
  (Enumerant.mk.injEq ..).mpr
    ⟨h.span.symm, h.name.eq_mapNames, h.ordinal.eq, eq_map_annotations h.annotations⟩

theorem Enum.Varied.eq_mapNames {d d' : Enum} (h : d.Varied (.ofNames hf lexemes) d') :
    d' = d.mapNames f :=
  (Enum.mk.injEq ..).mpr ⟨h.span.symm, h.name.eq_mapNames, eq_map_annotations h.annotations,
    eq_map_of_forall₂ h.enumerants fun _ _ he => he.eq_mapNames⟩

theorem Param.Varied.eq_mapNames {p p' : Param} (h : p.Varied (.ofNames hf lexemes) p') :
    p' = p.mapNames f :=
  (Param.mk.injEq ..).mpr ⟨h.span.symm, h.name.eq_mapNames, h.type.eq_mapNames,
    eq_map_value h.default, eq_map_annotations h.annotations⟩

theorem eq_map_params {ps ps' : List Param}
    (h : List.Forall₂ (Param.Varied (.ofNames hf lexemes)) ps ps') :
    ps' = ps.map (Param.mapNames f) :=
  eq_map_of_forall₂ h fun _ _ hp => hp.eq_mapNames

theorem Method.Varied.eq_mapNames {m m' : Method} (h : m.Varied (.ofNames hf lexemes) m') :
    m' = m.mapNames f :=
  (Method.mk.injEq ..).mpr ⟨h.span.symm, h.name.eq_mapNames, h.ordinal.eq, eq_map_params h.params,
    eq_map_of_rel h.results fun _ _ => eq_map_params, eq_map_annotations h.annotations⟩

theorem AnnotationDecl.Varied.eq_mapNames {d d' : AnnotationDecl}
    (h : d.Varied (.ofNames hf lexemes) d') : d' = d.mapNames f := by
  have htargets : d'.targets = d.targets.map id :=
    eq_map_of_forall₂ h.targets fun _ _ ht => (Prod.ext ht.1 ht.2).symm
  rw [List.map_id] at htargets
  exact (AnnotationDecl.mk.injEq ..).mpr ⟨h.span.symm, h.name.eq_mapNames, htargets,
    h.type.eq_mapNames, eq_map_annotations h.annotations⟩

theorem Alias.Varied.eq_mapNames {a a' : Alias} (h : a.Varied (.ofNames hf lexemes) a') :
    a' = a.mapNames f :=
  (Alias.mk.injEq ..).mpr ⟨h.span.symm, eq_map_of_rel h.name fun _ _ hi => hi.eq_mapNames,
    h.target.eq_mapNames⟩

theorem ImportAlias.Varied.eq_mapNames {a a' : ImportAlias}
    (h : a.Varied (.ofNames hf lexemes) a') : a' = a.mapNames f :=
  (ImportAlias.mk.injEq ..).mpr ⟨h.span.symm, eq_map_of_rel h.name fun _ _ hi => hi.eq_mapNames,
    h.source.eq, eq_map_idents h.path⟩

theorem Head.Varied.eq_mapNames {h h' : Head} (hh : h.Varied (.ofNames hf lexemes) h') :
    h' = h.mapNames f :=
  (Head.mk.injEq ..).mpr ⟨hh.span.symm, hh.name.eq_mapNames, eq_map_annotations hh.annotations⟩

mutual

theorem Decl.Varied.eq_mapNames : ∀ {d d' : Decl}, d.Varied (.ofNames hf lexemes) d' →
    d' = d.mapNames f
  | _, _, .const h => congrArg Decl.const h.eq_mapNames
  | .struct _ _, _, .struct head members =>
    (Decl.struct.injEq ..).mpr ⟨head.eq_mapNames, eq_mapMembers members⟩
  | _, _, .enum h => congrArg Decl.enum h.eq_mapNames
  | .interface _ _ _, _, .interface head bases members =>
    (Decl.interface.injEq ..).mpr ⟨head.eq_mapNames,
      eq_map_of_forall₂ bases fun _ _ ht => ht.eq_mapNames, eq_mapInterfaceMembers members⟩
  | _, _, .annotationDecl h => congrArg Decl.annotationDecl h.eq_mapNames
  | _, _, .pathAlias h => congrArg Decl.pathAlias h.eq_mapNames
  | _, _, .importAlias h => congrArg Decl.importAlias h.eq_mapNames

theorem Member.Varied.eq_mapNames : ∀ {m m' : Member}, m.Varied (.ofNames hf lexemes) m' →
    m' = m.mapNames f
  | _, _, .field h => congrArg Member.field h.eq_mapNames
  | .union _ _ _, _, .union head ordinal members =>
    (Member.union.injEq ..).mpr ⟨head.eq_mapNames,
      (eq_map_of_rel (g := id) ordinal fun _ _ ho => ho.eq).trans (congrFun Option.map_id _),
      eq_mapMembers members⟩
  | .anonymousUnion _ _ _, _, .anonymousUnion spans annotations members =>
    (Member.anonymousUnion.injEq ..).mpr
      ⟨spans.symm, eq_map_annotations annotations, eq_mapMembers members⟩
  | .group _ _, _, .group head members =>
    (Member.group.injEq ..).mpr ⟨head.eq_mapNames, eq_mapMembers members⟩
  | .decl _, _, .decl h => congrArg Member.decl h.eq_mapNames

theorem eq_mapMembers : ∀ {ms ms' : List Member},
    List.Forall₂ (Member.Varied (.ofNames hf lexemes)) ms ms' → ms' = mapMembers f ms
  | [], _, .nil => rfl
  | _ :: _, _, .cons h hs => (List.cons.injEq ..).mpr ⟨h.eq_mapNames, eq_mapMembers hs⟩

theorem InterfaceMember.Varied.eq_mapNames : ∀ {m m' : InterfaceMember},
    m.Varied (.ofNames hf lexemes) m' → m' = m.mapNames f
  | _, _, .method h => congrArg InterfaceMember.method h.eq_mapNames
  | .decl _, _, .decl h => congrArg InterfaceMember.decl h.eq_mapNames

theorem eq_mapInterfaceMembers : ∀ {ms ms' : List InterfaceMember},
    List.Forall₂ (InterfaceMember.Varied (.ofNames hf lexemes)) ms ms' →
      ms' = mapInterfaceMembers f ms
  | [], _, .nil => rfl
  | _ :: _, _, .cons h hs =>
    (List.cons.injEq ..).mpr ⟨h.eq_mapNames, eq_mapInterfaceMembers hs⟩

end

theorem Module.Varied.eq_mapNames {m m' : Module} (h : m.Varied (.ofNames hf lexemes) m') :
    m' = m.mapNames f :=
  (Module.mk.injEq ..).mpr ⟨h.id.eq, eq_map_annotations h.annotations,
    eq_map_of_forall₂ h.decls fun _ _ hd => hd.eq_mapNames⟩

/-! ## Tokens and errors -/

theorem Token.Varied.eq_mapNames {t t' : Token} (h : t.Varied (.ofNames hf lexemes) t') :
    t' = t.mapNames f := by
  cases h with
  | name hn => exact congrArg Token.name hn.1
  | same hother =>
    cases t with
    | name n => exact absurd rfl (hother n)
    | _ => rfl

/-- Causes that tell names without dots differ by the function. -/
theorem GrammarCause.Varied.eq_mapNames (hdots : ∀ n, HasName lexemes n → '.' ∉ n.toList)
    {c c' : GrammarCause} (h : c.Varied (.ofNames hf lexemes) c') : c' = c.mapNames f := by
  cases h with
  | unexpectedToken tokens expected =>
    rw [tokens.eq_mapNames, mapNames]
  | expectedKeyword hn => exact congrArg GrammarCause.expectedKeyword hn.1
  | unexpectedTypeParameters nonempty names =>
    have hnames := forall_left_of_forall₂ names fun _ _ h => hdots _ h.2
    rw [mapNames, dottedNames_intercalate nonempty hnames,
      eq_map_of_forall₂ names fun _ _ h => h.1]
  | unknownTarget hn => exact congrArg GrammarCause.unknownTarget hn.1
  | same hc => cases c <;> first | rfl | exact hc.elim

end Equations

/-- The lexemes differ from those with mapped names by the variation. -/
theorem varied_mapNames {f : String → String} (hf : KeepsKnown f) (lexemes : List Lexeme) :
    List.Forall₂ (Lexeme.Varied (.ofNames hf lexemes)) lexemes
      (lexemes.map (Lexeme.mapNames f)) := by
  refine List.forall₂_map_right_iff.2 (List.forall₂_same.2 fun x hx => ⟨?_, rfl⟩)
  unfold Lexeme.mapNames
  cases htoken : x.token with
  | name n => exact .name ⟨rfl, x, hx, htoken⟩
  | _ => exact .same nofun

/-- The parser binds no names.  A function that keeps the words of the grammar, applied to the names
of any lexemes, is applied to the names of the module that they are, and to the names that the error
tells if they are none; where it stands stays the same.  An error that tells a path tells its names
with dots between them, so if no name has a dot it is the error with its names mapped. -/
theorem ofLexemes_mapNames {f : String → String} (hf : KeepsKnown f) (lexemes : List Lexeme)
    (stop : Nat) :
    (∀ m, Module.ofLexemes lexemes stop = .ok m →
      Module.ofLexemes (lexemes.map (Lexeme.mapNames f)) stop = .ok (m.mapNames f)) ∧
    (∀ e, Module.ofLexemes lexemes stop = .error e → ∃ cause,
      Module.ofLexemes (lexemes.map (Lexeme.mapNames f)) stop = .error ⟨e.span, cause⟩ ∧
        e.cause.Varied (.ofNames hf lexemes) cause ∧
        ((∀ n, HasName lexemes n → '.' ∉ n.toList) → cause = e.cause.mapNames f)) := by
  have houtcome := ofLexemes_varied (varied_mapNames hf lexemes) (rfl : Span.point stop = _)
  generalize Module.ofLexemes lexemes stop = x, Module.ofLexemes (lexemes.map _) stop = y at *
  cases houtcome with
  | ok hm =>
    refine ⟨fun m h => ?_, nofun⟩
    obtain rfl := Except.ok.inj h
    rw [hm.eq_mapNames]
  | error hspan hcause =>
    refine ⟨nofun, fun e h => ?_⟩
    obtain rfl := Except.error.inj h
    obtain rfl : _ = _ := hspan
    exact ⟨_, rfl, hcause, fun hdots => hcause.eq_mapNames hdots⟩

theorem ofLexemes_mapNames_merged :
    KeepsKnown (fun n => if n = "a" then "b" else n) ∧
      Module.ofLexemes ((Lexed.ofText "@1;using a=b;").lexemes.map
        (Lexeme.mapNames fun n => if n = "a" then "b" else n)) 13 =
      .ok ⟨⟨⟨0, 3⟩, 1⟩, [], [.pathAlias
        ⟨⟨3, 13⟩, some ⟨⟨9, 10⟩, "b"⟩, ⟨⟨11, 12⟩, [⟨⟨11, 12⟩, "b"⟩]⟩⟩]⟩ := by
  have hkeeps : KeepsKnown (fun n => if n = "a" then "b" else n) := by
    refine ⟨by decide, fun n h => ?_⟩
    by_cases hn : n = "a"
    · rw [if_pos hn] at h
      exact absurd h (by decide)
    · rwa [if_neg hn] at h
  have hparsed : Module.ofLexemes (Lexed.ofText "@1;using a=b;").lexemes 13 =
      .ok ⟨⟨⟨0, 3⟩, 1⟩, [], [.pathAlias
        ⟨⟨3, 13⟩, some ⟨⟨9, 10⟩, "a"⟩, ⟨⟨11, 12⟩, [⟨⟨11, 12⟩, "b"⟩]⟩⟩]⟩ := by
    rfl
  exact ⟨hkeeps, (ofLexemes_mapNames hkeeps _ 13).1 _ hparsed⟩

end SchemaLang
