import Mathlib.Data.List.Forall2
import SchemaLang.Proofs.Floats
import SchemaLang.Proofs.Linking.Places

/-!
# Values that fit their types

`Schema.Fits` says when a value is one that a literal may have for a type, given the declarations of
a schema.  `Module.Typed` says so of every value in a linked module: those of its constants, those
of the defaults of its fields and parameters, and those of the annotations that are applied in it,
each for the type that it was written for.
-/

namespace SchemaLang

/-! ## Bodies -/

mutual

/-- The names that a literal for a body may set, each with its type.  Those in an anonymous union
count as names of the body around it. -/
def LinkedMember.slots : LinkedMember → List (String × SchemaType)
  | .field f => [(f.name, f.type)]
  | .union head _ _ => [(head.name, .decl head.id)]
  | .anonymousUnion _ ms => memberSlots ms
  | .group head _ => [(head.name, .decl head.id)]
  | .decl _ => []

/-- The names that the members of a body contribute. -/
def memberSlots : List LinkedMember → List (String × SchemaType)
  | [] => []
  | m :: ms => m.slots ++ memberSlots ms

end

mutual

/-- The bodies of the structs, named unions and groups in a declaration, each by its id. -/
def LinkedDecl.bodies : LinkedDecl → List (DeclId × List LinkedMember)
  | .struct head ms => (head.id, ms) :: memberBodies ms
  | .interface _ _ _ nested _ => declBodies nested
  | .const _ | .enum _ | .annotationDecl _ | .pathAlias _ _ | .importAlias _ _ _ => []

/-- The bodies in the declarations. -/
def declBodies : List LinkedDecl → List (DeclId × List LinkedMember)
  | [] => []
  | d :: ds => d.bodies ++ declBodies ds

/-- The bodies in a member. -/
def LinkedMember.bodies : LinkedMember → List (DeclId × List LinkedMember)
  | .field _ => []
  | .union head _ ms => (head.id, ms) :: memberBodies ms
  | .anonymousUnion _ ms => memberBodies ms
  | .group head ms => (head.id, ms) :: memberBodies ms
  | .decl d => d.bodies

/-- The bodies in the members. -/
def memberBodies : List LinkedMember → List (DeclId × List LinkedMember)
  | [] => []
  | m :: ms => m.bodies ++ memberBodies ms

end

/-- The bodies of all modules. -/
def Schema.bodies (s : Schema) : List (DeclId × List LinkedMember) :=
  s.modules.flatMap fun m => m.decls.flatMap LinkedDecl.bodies

/-! ## Values -/

/-- The type is not a name that is bound nowhere. -/
def SchemaType.IsResolved : SchemaType → Prop
  | .unresolved _ => False
  | .builtin _ | .decl _ | .list _ => True

/-- The text of a number. -/
def Literal.numeral? : Literal → Option String
  | .int _ s => some s
  | .float _ s => some s
  | _ => none

mutual

/-- A value fits a type as that of a literal.  For a type that is not resolved the literal itself is
kept; for every other type a name may stand for a constant. -/
inductive Schema.Fits (s : Schema) : SchemaType → Literal → Value → Prop
  | deferred {path : Path} {literal : Literal} :
      Schema.Fits s (.unresolved path) literal (.deferred literal)
  | const {t : SchemaType} {path : Path} {id : DeclId} (resolved : t.IsResolved)
      (isConst : s.places.const id) : Schema.Fits s t (.name path) (.const id)
  | unresolvedConst {t : SchemaType} {path : Path} (resolved : t.IsResolved) :
      Schema.Fits s t (.name path) (.unresolvedConst path)
  | void {span : Span} : Schema.Fits s (.builtin .void) (.void span) .void
  | bool {span : Span} {b : Bool} : Schema.Fits s (.builtin .bool) (.bool span b) (.bool b)
  | text {span : Span} {t : String} : Schema.Fits s (.builtin .text) (.text span t) (.text t)
  | data {span : Span} {t : String} :
      Schema.Fits s (.builtin .data) (.text span t) (.data t.toUTF8.toList)
  | int {t : IntType} {literal : Literal} {text : String} {n : Int}
      (numeral : literal.numeral? = some text)
      (decoded : (NumericType.int t).decode text.toList = .ok (.int n)) (holds : t.Holds n) :
      Schema.Fits s (.builtin (.numeric (.int t))) literal (.int n)
  | float {t : FloatType} {literal : Literal} {text : String} {x : Binary64}
      (numeral : literal.numeral? = some text)
      (decoded : (NumericType.float t).decode text.toList = .ok (.float x)) (finite : x.IsFinite)
      (bounded : x.units ≤ t.max.units) :
      Schema.Fits s (.builtin (.numeric (.float t))) literal (.float x)
  | enumerant {d : LinkedEnum} {span : Span} {i : Ident} {ordinal : Nat}
      (declared : ∃ n ∈ s.nodes, n.content = .enum d)
      (listed : (d.enumerants.map fun e => (e.name, e.ordinal)).lookup i.name = some ordinal) :
      Schema.Fits s (.decl d.id) (.name ⟨span, [i]⟩) (.enumerant d.id ordinal)
  | list {element : SchemaType} {span : Span} {items : List Literal} {values : List Value}
      (fit : Schema.ItemsFit s element items values) :
      Schema.Fits s (.list element) (.list span items) (.list values)
  | struct {id : DeclId} {ms : List LinkedMember} {span : Span} {inits : List (Ident × Literal)}
      {fields : List (String × Value)} (declared : (id, ms) ∈ s.bodies)
      (fit : Schema.InitsFit s (memberSlots ms) inits fields) :
      Schema.Fits s (.decl id) (.struct span inits) (.struct fields)

/-- The values of the items of a list literal, one for each. -/
inductive Schema.ItemsFit (s : Schema) : SchemaType → List Literal → List Value → Prop
  | nil {element : SchemaType} : Schema.ItemsFit s element [] []
  | cons {element : SchemaType} {item : Literal} {items : List Literal} {v : Value}
      {values : List Value} (head : Schema.Fits s element item v)
      (tail : Schema.ItemsFit s element items values) :
      Schema.ItemsFit s element (item :: items) (v :: values)

/-- The values of the fields of a struct literal, one for each, under its name.  The type of each is
that of the first slot of the name. -/
inductive Schema.InitsFit (s : Schema) :
    List (String × SchemaType) → List (Ident × Literal) → List (String × Value) → Prop
  | nil {slots : List (String × SchemaType)} : Schema.InitsFit s slots [] []
  | cons {slots : List (String × SchemaType)} {i : Ident} {t : SchemaType} {literal : Literal}
      {inits : List (Ident × Literal)} {v : Value} {fields : List (String × Value)}
      (slot : slots.lookup i.name = some t) (head : Schema.Fits s t literal v)
      (tail : Schema.InitsFit s slots inits fields) :
      Schema.InitsFit s slots ((i, literal) :: inits) ((i.name, v) :: fields)

end

/-! ## Modules -/

section Typed

variable (s : Schema)

/-- An annotation that is bound has a value for the type of its declaration, if it has one. -/
inductive Application.Typed : Application → LinkedApplication → Prop
  | bound {a : Application} {d : LinkedAnnotationDecl} {value : Option Value}
      (declared : ∃ n ∈ s.nodes, n.content = .annotationDecl d)
      (fit : Option.Rel (s.Fits d.type) a.value value) :
      Application.Typed a ⟨a.name, .decl d.id, value⟩
  | unresolved {a : Application} :
      Application.Typed a ⟨a.name, .unresolved a.name, a.value.map .deferred⟩

/-- The annotations of a node. -/
abbrev Applied : List Application → List LinkedApplication → Prop :=
  List.Forall₂ (Application.Typed s)

structure Field.Typed (f : Field) (f' : LinkedField) : Prop where
  default : Option.Rel (s.Fits f'.type) f.default f'.default
  annotations : Applied s f.annotations f'.annotations

structure Param.Typed (x : Param) (x' : LinkedParam) : Prop where
  default : Option.Rel (s.Fits x'.type) x.default x'.default
  annotations : Applied s x.annotations x'.annotations

structure Method.Typed (m : Method) (m' : LinkedMethod) : Prop where
  params : List.Forall₂ (Param.Typed s) m.params m'.params
  results : Option.Rel (List.Forall₂ (Param.Typed s)) m.results m'.results
  annotations : Applied s m.annotations m'.annotations

structure Const.Typed (d : Const) (d' : LinkedConst) : Prop where
  value : s.Fits d'.type d.value d'.value
  annotations : Applied s d.annotations d'.annotations

structure Enum.Typed (d : Enum) (d' : LinkedEnum) : Prop where
  annotations : Applied s d.annotations d'.annotations
  enumerants : List.Forall₂ (fun e e' => Applied s e.annotations e'.annotations) d.enumerants
    d'.enumerants

structure AnnotationDecl.Typed (d : AnnotationDecl) (d' : LinkedAnnotationDecl) : Prop where
  annotations : Applied s d.annotations d'.annotations

mutual

/-- Every value in a linked declaration fits its type. -/
def Decl.Typed : Decl → LinkedDecl → Prop
  | .const d, .const d' => d.Typed s d'
  | .struct head ms, .struct head' ms' =>
    Applied s head.annotations head'.annotations ∧ membersTyped ms ms'
  | .enum d, .enum d' => d.Typed s d'
  | .interface head _ ms, .interface head' _ methods nested _ =>
    Applied s head.annotations head'.annotations ∧ interfaceMembersTyped ms methods nested
  | .annotationDecl d, .annotationDecl d' => d.Typed s d'
  | .pathAlias _, .pathAlias _ _ => True
  | .importAlias _, .importAlias _ _ _ => True
  | _, _ => False

/-- Every value in a linked member fits its type. -/
def Member.Typed : Member → LinkedMember → Prop
  | .field f, .field f' => f.Typed s f'
  | .union head _ ms, .union head' _ ms' =>
    Applied s head.annotations head'.annotations ∧ membersTyped ms ms'
  | .anonymousUnion _ annotations ms, .anonymousUnion annotations' ms' =>
    Applied s annotations annotations' ∧ membersTyped ms ms'
  | .group head ms, .group head' ms' =>
    Applied s head.annotations head'.annotations ∧ membersTyped ms ms'
  | .decl d, .decl d' => d.Typed d'
  | _, _ => False

/-- Every value in the linked members of a body fits its type. -/
def membersTyped : List Member → List LinkedMember → Prop
  | [], [] => True
  | m :: ms, m' :: ms' => m.Typed m' ∧ membersTyped ms ms'
  | _, _ => False

/-- Every value in the methods of an interface and in what is nested in it fits its type. -/
def interfaceMembersTyped :
    List InterfaceMember → List LinkedMethod → List LinkedDecl → Prop
  | [], [], [] => True
  | .method m :: ms, m' :: methods, nested => m.Typed s m' ∧ interfaceMembersTyped ms methods nested
  | .decl d :: ms, methods, d' :: nested => d.Typed d' ∧ interfaceMembersTyped ms methods nested
  | _, _, _ => False

end

/-- Every value in a linked module fits its type. -/
structure Module.Typed (m : Module) (m' : LinkedModule) : Prop where
  annotations : Applied s m.annotations m'.annotations
  decls : List.Forall₂ (Decl.Typed s) m.decls m'.decls

end Typed

end SchemaLang
