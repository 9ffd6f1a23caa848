import SchemaLang.Proofs.Grammar.Terms

/-!
# Trees without their spans

`eraseSpans` replaces every span of a tree by the same one, so two trees with equal images differ at
most in the places where their parts were found.
-/

namespace SchemaLang

/-! ## Names, types and literals -/

def Ident.eraseSpans (i : Ident) : Ident := ⟨.point 0, i.name⟩

def Path.eraseSpans (p : Path) : Path := ⟨.point 0, p.segments.map Ident.eraseSpans⟩

def ImportPath.eraseSpans (i : ImportPath) : ImportPath := ⟨.point 0, i.path⟩

def Ordinal.eraseSpans (o : Ordinal) : Ordinal := ⟨.point 0, o.value⟩

def FileId.eraseSpans (id : FileId) : FileId := ⟨.point 0, id.value⟩

def TypeRef.eraseSpans : TypeRef → TypeRef
  | .named p => .named p.eraseSpans
  | .list _ element => .list (.point 0) element.eraseSpans
  | .imported _ source segments =>
    .imported (.point 0) source.eraseSpans (segments.map Ident.eraseSpans)

mutual

def Literal.eraseSpans : Literal → Literal
  | .void _ => .void (.point 0)
  | .bool _ b => .bool (.point 0) b
  | .int _ s => .int (.point 0) s
  | .float _ s => .float (.point 0) s
  | .text _ s => .text (.point 0) s
  | .name p => .name p.eraseSpans
  | .list _ items => .list (.point 0) (eraseItems items)
  | .struct _ fields => .struct (.point 0) (eraseFields fields)

/-- The items of a list without their spans. -/
def eraseItems : List Literal → List Literal
  | [] => []
  | l :: ls => l.eraseSpans :: eraseItems ls

/-- The fields of a struct without their spans. -/
def eraseFields : List (Ident × Literal) → List (Ident × Literal)
  | [] => []
  | (i, l) :: fields => (i.eraseSpans, l.eraseSpans) :: eraseFields fields

end

def Application.eraseSpans (a : Application) : Application :=
  ⟨.point 0, a.name.eraseSpans, a.value.map Literal.eraseSpans⟩

/-! ## Declarations -/

def Const.eraseSpans (d : Const) : Const :=
  ⟨.point 0, d.name.eraseSpans, d.type.eraseSpans, d.value.eraseSpans,
    d.annotations.map Application.eraseSpans⟩

def Field.eraseSpans (f : Field) : Field :=
  ⟨.point 0, f.name.eraseSpans, f.ordinal.eraseSpans, f.type.eraseSpans,
    f.default.map Literal.eraseSpans, f.annotations.map Application.eraseSpans⟩

def Enumerant.eraseSpans (e : Enumerant) : Enumerant :=
  ⟨.point 0, e.name.eraseSpans, e.ordinal.eraseSpans, e.annotations.map Application.eraseSpans⟩

def Enum.eraseSpans (d : Enum) : Enum :=
  ⟨.point 0, d.name.eraseSpans, d.annotations.map Application.eraseSpans,
    d.enumerants.map Enumerant.eraseSpans⟩

def Param.eraseSpans (p : Param) : Param :=
  ⟨.point 0, p.name.eraseSpans, p.type.eraseSpans, p.default.map Literal.eraseSpans,
    p.annotations.map Application.eraseSpans⟩

def Method.eraseSpans (m : Method) : Method :=
  ⟨.point 0, m.name.eraseSpans, m.ordinal.eraseSpans, m.params.map Param.eraseSpans,
    m.results.map (List.map Param.eraseSpans), m.annotations.map Application.eraseSpans⟩

def AnnotationDecl.eraseSpans (d : AnnotationDecl) : AnnotationDecl :=
  ⟨.point 0, d.name.eraseSpans, d.targets.map fun t => (.point 0, t.2), d.type.eraseSpans,
    d.annotations.map Application.eraseSpans⟩

def Alias.eraseSpans (a : Alias) : Alias :=
  ⟨.point 0, a.name.map Ident.eraseSpans, a.target.eraseSpans⟩

def ImportAlias.eraseSpans (a : ImportAlias) : ImportAlias :=
  ⟨.point 0, a.name.map Ident.eraseSpans, a.source.eraseSpans, a.path.map Ident.eraseSpans⟩

def Head.eraseSpans (h : Head) : Head :=
  ⟨.point 0, h.name.eraseSpans, h.annotations.map Application.eraseSpans⟩

mutual

def Decl.eraseSpans : Decl → Decl
  | .const d => .const d.eraseSpans
  | .struct head ms => .struct head.eraseSpans (eraseMembers ms)
  | .enum d => .enum d.eraseSpans
  | .interface head bases ms =>
    .interface head.eraseSpans (bases.map TypeRef.eraseSpans) (eraseInterfaceMembers ms)
  | .annotationDecl d => .annotationDecl d.eraseSpans
  | .pathAlias a => .pathAlias a.eraseSpans
  | .importAlias a => .importAlias a.eraseSpans

def Member.eraseSpans : Member → Member
  | .field f => .field f.eraseSpans
  | .union head o ms => .union head.eraseSpans (o.map Ordinal.eraseSpans) (eraseMembers ms)
  | .anonymousUnion _ annotations ms =>
    .anonymousUnion (.point 0) (annotations.map Application.eraseSpans) (eraseMembers ms)
  | .group head ms => .group head.eraseSpans (eraseMembers ms)
  | .decl d => .decl d.eraseSpans

/-- The members of a body without their spans. -/
def eraseMembers : List Member → List Member
  | [] => []
  | m :: ms => m.eraseSpans :: eraseMembers ms

def InterfaceMember.eraseSpans : InterfaceMember → InterfaceMember
  | .method m => .method m.eraseSpans
  | .decl d => .decl d.eraseSpans

/-- The items of an interface without their spans. -/
def eraseInterfaceMembers : List InterfaceMember → List InterfaceMember
  | [] => []
  | m :: ms => m.eraseSpans :: eraseInterfaceMembers ms

end

/-- A module without its spans. -/
def Module.eraseSpans (m : Module) : Module :=
  ⟨m.id.eraseSpans, m.annotations.map Application.eraseSpans, m.decls.map Decl.eraseSpans⟩

/-! ## Parts of a list -/

theorem eraseItems_eq_map (items : List Literal) :
    eraseItems items = items.map Literal.eraseSpans := by
  induction items with
  | nil => rfl
  | cons l ls ih => rw [eraseItems, ih, List.map_cons]

theorem eraseFields_eq_map (fields : List (Ident × Literal)) :
    eraseFields fields = fields.map fun f => (f.1.eraseSpans, f.2.eraseSpans) := by
  induction fields with
  | nil => rfl
  | cons f fields ih => rw [eraseFields, ih, List.map_cons]

theorem eraseMembers_eq_map (ms : List Member) : eraseMembers ms = ms.map Member.eraseSpans := by
  induction ms with
  | nil => rfl
  | cons m ms ih => rw [eraseMembers, ih, List.map_cons]

theorem eraseInterfaceMembers_eq_map (ms : List InterfaceMember) :
    eraseInterfaceMembers ms = ms.map InterfaceMember.eraseSpans := by
  induction ms with
  | nil => rfl
  | cons m ms ih => rw [eraseInterfaceMembers, ih, List.map_cons]

/-! ## What does not depend on spans -/

mutual

theorem depth_eraseSpans : ∀ l : Literal, l.eraseSpans.depth = l.depth
  | .void _ | .bool _ _ | .int _ _ | .float _ _ | .text _ _ | .name _ => rfl
  | .list _ items => by rw [Literal.eraseSpans, Literal.depth, itemsDepth_eraseItems, Literal.depth]
  | .struct _ fields => by
    rw [Literal.eraseSpans, Literal.depth, fieldsDepth_eraseFields, Literal.depth]

theorem itemsDepth_eraseItems : ∀ items : List Literal,
    itemsDepth (eraseItems items) = itemsDepth items
  | [] => rfl
  | l :: ls => by
    rw [eraseItems, itemsDepth, depth_eraseSpans l, itemsDepth_eraseItems ls, itemsDepth]

theorem fieldsDepth_eraseFields : ∀ fields : List (Ident × Literal),
    fieldsDepth (eraseFields fields) = fieldsDepth fields
  | [] => rfl
  | (i, l) :: fields => by
    rw [eraseFields, fieldsDepth, depth_eraseSpans l, fieldsDepth_eraseFields fields, fieldsDepth]

end

theorem depth_eq_of_eraseSpans_eq {l l' : Literal} (h : l'.eraseSpans = l.eraseSpans) :
    l'.depth = l.depth := by
  rw [← depth_eraseSpans l', h, depth_eraseSpans]

theorem isAnonymousUnion_eraseSpans (m : Member) :
    m.eraseSpans.isAnonymousUnion = m.isAnonymousUnion := by
  cases m <;> rfl

/-- A body keeps the number of its unions without a name. -/
theorem countP_eq_of_eraseSpans_eq {ms ms' : List Member}
    (h : ms'.map Member.eraseSpans = ms.map Member.eraseSpans) :
    ms'.countP Member.isAnonymousUnion = ms.countP Member.isAnonymousUnion := by
  have hcount (l : List Member) : (l.map Member.eraseSpans).countP Member.isAnonymousUnion =
      l.countP Member.isAnonymousUnion := by
    rw [List.countP_map]
    exact congrArg (List.countP · l) (funext isAnonymousUnion_eraseSpans)
  rw [← hcount ms', h, hcount]

end SchemaLang
