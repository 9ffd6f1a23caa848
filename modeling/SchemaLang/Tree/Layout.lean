import SchemaLang.Text.Escape
import SchemaLang.Token
import SchemaLang.Tree

/-!
# Printing a module

A module is laid out as a list of pieces: tokens, spaces and line ends.  The tokens of a layout are
those of the module, in an order that reads back as the same module; the spaces and the line ends
only keep them apart.  Every declaration and member takes a line of its own, indented by two spaces
for each body that it stands in, and comments are not kept.
-/

namespace SchemaLang

/-- A piece of a laid out module. -/
inductive Piece where
  | token (t : Token)
  | space
  | line (depth : Nat)
deriving DecidableEq

/-- The characters of a piece; a line end also indents the line that it begins. -/
def Piece.text : Piece → String
  | .token t => t.spelling
  | .space => " "
  | .line depth => "\n" ++ String.ofList (List.replicate (2 * depth) ' ')

/-- A sequence of pieces. -/
abbrev Layout := List Piece

namespace Layout

/-- The characters of a layout. -/
def text (l : Layout) : String := String.join (l.map Piece.text)

/-- The tokens of a layout. -/
def tokens (l : Layout) : List Token :=
  l.filterMap fun
    | .token t => some t
    | _ => none

/-! ## Pieces -/

/-- A keyword. -/
def word (k : Keyword) : Piece := .token (.keyword k)

/-- A punctuation mark. -/
def mark (m : Mark) : Piece := .token (.mark m)

/-- A name. -/
def name (s : String) : Piece := .token (.name s)

/-- A text literal. -/
def quoted (s : String) : Piece := .token (.text (String.ofList (Escape.encode s.toList)))

/-- A number, whose minus sign is a token of its own. -/
def numeral (s : String) : Layout :=
  match s.toList with
  | '-' :: cs => [mark .minus, .token (.number (String.ofList cs))]
  | _ => [.token (.number s)]

/-- `@number`. -/
def ordinal (o : Ordinal) : Layout := [mark .atSign, .token (.number (toString o.value))]

/-- Layouts with a comma and a space between them. -/
def commaList (items : List Layout) : Layout := [mark .comma, .space].intercalate items

/-- `.Name` for every segment. -/
def dotted (segments : List Ident) : Layout :=
  segments.flatMap fun segment => [mark .dot, name segment.name]

/-! ## Names, types and literals -/

/-- A dotted name. -/
def path (p : Path) : Layout :=
  match p.segments with
  | [] => []
  | first :: rest => name first.name :: dotted rest

/-- `import "file"` and the segments after it. -/
def importTarget (source : ImportPath) (segments : List Ident) : Layout :=
  [word .importKw, .space, quoted source.path] ++ dotted segments

/-- A type. -/
def type : TypeRef → Layout
  | .named p => path p
  | .list _ element => [name "List", mark .openParen] ++ type element ++ [mark .closeParen]
  | .imported _ source segments => importTarget source segments

mutual

/-- A literal. -/
def literal : Literal → Layout
  | .void _ => [word .voidKw]
  | .bool _ true => [word .trueKw]
  | .bool _ false => [word .falseKw]
  | .int _ s => numeral s
  | .float _ s => numeral s
  | .text _ s => [quoted s]
  | .name p => path p
  | .list _ items => [mark .openBracket] ++ commaList (literals items) ++ [mark .closeBracket]
  | .struct _ fields => [mark .openParen] ++ commaList (fieldValues fields) ++ [mark .closeParen]

/-- The items of a list literal. -/
def literals : List Literal → List Layout
  | [] => []
  | l :: ls => literal l :: literals ls

/-- The `name = value` pairs of a struct literal. -/
def fieldValues : List (Ident × Literal) → List Layout
  | [] => []
  | (i, l) :: fields =>
    ([name i.name, .space, mark .equals, .space] ++ literal l) :: fieldValues fields

end

/-- The value of an annotation.  The void literal is written as empty parentheses, and the fields
of a struct literal without parentheses of their own, unless there are none. -/
def argument : Literal → Layout
  | .void _ => [mark .openParen, mark .closeParen]
  | .struct _ (field :: fields) =>
    [mark .openParen] ++ commaList (fieldValues (field :: fields)) ++ [mark .closeParen]
  | value => [mark .openParen] ++ literal value ++ [mark .closeParen]

/-- An annotation. -/
def application (a : Application) : Layout :=
  [mark .dollar] ++ path a.name ++ (a.value.map argument).getD []

/-- Annotations, each after a space. -/
def applications (as : List Application) : Layout := as.flatMap fun a => .space :: application a

/-- ` = literal`, if there is a default. -/
def default? : Option Literal → Layout
  | some l => [.space, mark .equals, .space] ++ literal l
  | none => []

/-! ## Declarations -/

/-- The token of an annotation target. -/
def target : Target → Piece
  | .any => mark .star
  | .const => word .constKw
  | .enum => word .enumKw
  | .struct => word .structKw
  | .union => word .unionKw
  | .group => word .groupKw
  | .interface => word .interfaceKw
  | .annotationDecl => word .annotationKw
  | t => name t.name

/-- `name :type = default $annotations`. -/
def param (p : Param) : Layout :=
  [name p.name.name, .space, mark .colon] ++ type p.type ++ default? p.default ++
    applications p.annotations

/-- A parenthesised list of parameters. -/
def params (ps : List Param) : Layout :=
  [mark .openParen] ++ commaList (ps.map param) ++ [mark .closeParen]

/-- The end of a declaration without a body: its annotations and a semicolon. -/
def ending (as : List Application) : Layout := applications as ++ [mark .semicolon]

/-- A method. -/
def method (m : Method) : Layout :=
  [name m.name.name, .space] ++ ordinal m.ordinal ++ [.space] ++ params m.params ++
    (m.results.map fun ps => [.space, mark .arrow, .space] ++ params ps).getD [] ++
    ending m.annotations

/-- A field. -/
def field (f : Field) : Layout :=
  [name f.name.name, .space] ++ ordinal f.ordinal ++ [.space, mark .colon] ++ type f.type ++
    default? f.default ++ ending f.annotations

/-- An enumerant. -/
def enumerant (e : Enumerant) : Layout :=
  [name e.name.name, .space] ++ ordinal e.ordinal ++ ending e.annotations

/-- `using`, and the new name with an equals sign if there is one. -/
def usingStart (new : Option Ident) : Layout :=
  [word .usingKw, .space] ++
    (new.map fun i => [name i.name, .space, mark .equals, .space]).getD []

/-- ` extends(bases)`, unless there are none. -/
def bases : List TypeRef → Layout
  | [] => []
  | ts =>
    [.space, word .extendsKw, mark .openParen] ++ commaList (ts.map type) ++ [mark .closeParen]

/-- The items of a body at `depth`, each on a line of its own, in braces. -/
def block (depth : Nat) (items : List Layout) : Layout :=
  match items with
  | [] => [.space, mark .openBrace, mark .closeBrace]
  | items =>
    [.space, mark .openBrace] ++ items.flatMap (.line (depth + 1) :: ·) ++
      [.line depth, mark .closeBrace]

mutual

/-- A declaration that stands `depth` bodies deep. -/
def decl (depth : Nat) : Decl → Layout
  | .const d =>
    [word .constKw, .space, name d.name.name, .space, mark .colon] ++ type d.type ++
      default? (some d.value) ++ ending d.annotations
  | .struct head ms =>
    [word .structKw, .space, name head.name.name] ++ applications head.annotations ++
      block depth (members (depth + 1) ms)
  | .enum d =>
    [word .enumKw, .space, name d.name.name] ++ applications d.annotations ++
      block depth (d.enumerants.map enumerant)
  | .interface head ts ms =>
    [word .interfaceKw, .space, name head.name.name] ++ bases ts ++
      applications head.annotations ++ block depth (interfaceMembers (depth + 1) ms)
  | .annotationDecl d =>
    [word .annotationKw, .space, name d.name.name, mark .openParen] ++
      commaList (d.targets.map fun t => [target t.2]) ++
      [mark .closeParen, .space, mark .colon] ++ type d.type ++ ending d.annotations
  | .pathAlias a => usingStart a.name ++ path a.target ++ [mark .semicolon]
  | .importAlias a => usingStart a.name ++ importTarget a.source a.path ++ [mark .semicolon]

/-- A member that stands `depth` bodies deep. -/
def member (depth : Nat) : Member → Layout
  | .field f => field f
  | .union head o ms =>
    [name head.name.name, .space] ++ (o.map fun o => ordinal o ++ [.space]).getD [] ++
      [mark .colon, word .unionKw] ++ applications head.annotations ++
      block depth (members (depth + 1) ms)
  | .anonymousUnion _ annotations ms =>
    [word .unionKw] ++ applications annotations ++ block depth (members (depth + 1) ms)
  | .group head ms =>
    [name head.name.name, .space, mark .colon, word .groupKw] ++ applications head.annotations ++
      block depth (members (depth + 1) ms)
  | .decl d => decl depth d

/-- The members of a body, `depth` bodies deep. -/
def members (depth : Nat) : List Member → List Layout
  | [] => []
  | m :: ms => member depth m :: members depth ms

/-- An item of an interface that stands `depth` bodies deep. -/
def interfaceMember (depth : Nat) : InterfaceMember → Layout
  | .method m => method m
  | .decl d => decl depth d

/-- The items of an interface, `depth` bodies deep. -/
def interfaceMembers (depth : Nat) : List InterfaceMember → List Layout
  | [] => []
  | m :: ms => interfaceMember depth m :: interfaceMembers depth ms

end

/-- A file: its id, an empty line, and a line for each annotation and declaration. -/
def file (m : Module) : Layout :=
  [mark .atSign, .token (.number (String.ofList ('0' :: 'x' :: Nat.toDigits 16 m.id.value))),
    mark .semicolon, .line 0] ++
    m.annotations.flatMap (fun a => .line 0 :: application a ++ [mark .semicolon]) ++
    m.decls.flatMap (fun d => .line 0 :: decl 0 d) ++ [.line 0]

end Layout

/-- The text of a module. -/
def Module.print (m : Module) : String := (Layout.file m).text

end SchemaLang
