import SchemaLang.Tree.Parser.Term

/-!
# The grammar

The grammar of schema files as derivation rules, written without regard to how they are parsed.
`IsPath ls p` says that the lexemes `ls`, all of them and in this order, are the path `p`, and so
for every other kind of phrase up to `IsModule`.  A rule joins the lexemes of its parts, so a
derivation uses each lexeme exactly once, and the node that it gives is the one with the spans of
these lexemes.
-/

namespace SchemaLang

/-! ## Lexemes -/

/-- The lexeme of a keyword. -/
def Lexeme.word (k : Keyword) (span : Span) : Lexeme := ⟨.keyword k, span⟩

/-- The lexeme of a punctuation mark. -/
def Lexeme.mark (m : Mark) (span : Span) : Lexeme := ⟨.mark m, span⟩

/-- The lexeme of a number. -/
def Lexeme.number (s : String) (span : Span) : Lexeme := ⟨.number s, span⟩

/-- The lexeme of a text, as written between its quotes. -/
def Lexeme.text (raw : String) (span : Span) : Lexeme := ⟨.text raw, span⟩

/-- The lexeme of a name. -/
def Ident.lexeme (i : Ident) : Lexeme := ⟨.name i.name, i.span⟩

/-! ## The depth of a literal -/

mutual

/-- How deep lists and structs are nested in a literal. -/
def Literal.depth : Literal → Nat
  | .list _ items => itemsDepth items + 1
  | .struct _ fields => fieldsDepth fields + 1
  | _ => 0

/-- The greatest depth of the items of a list. -/
def itemsDepth : List Literal → Nat
  | [] => 0
  | l :: ls => max l.depth (itemsDepth ls)

/-- The greatest depth of the fields of a struct. -/
def fieldsDepth : List (Ident × Literal) → Nat
  | [] => 0
  | (_, l) :: fields => max l.depth (fieldsDepth fields)

end

namespace Grammar

/-- The phrases of one kind: the lexemes that make them up and what they mean. -/
abbrev Phrases (α : Type) := List Lexeme → α → Prop

/-! ## Sequences -/

section Sequences

variable {α : Type} (item : Phrases α)

/-- A phrase, or nothing. -/
inductive IsOptional : Phrases (Option α)
  | none : IsOptional [] none
  | some {ls : List Lexeme} {a : α} (phrase : item ls a) : IsOptional ls (some a)

/-- Any number of phrases, one after another. -/
inductive IsMany : Phrases (List α)
  | nil : IsMany [] []
  | cons {ls rest : List Lexeme} {a : α} {as : List α} (head : item ls a)
      (tail : IsMany rest as) : IsMany (ls ++ rest) (a :: as)

/-- One or more phrases with commas between them. -/
inductive IsSeparated : Phrases (List α)
  | last {ls : List Lexeme} {a : α} (head : item ls a) : IsSeparated ls [a]
  | cons {ls rest : List Lexeme} {a : α} {as : List α} (comma : Span) (head : item ls a)
      (tail : IsSeparated rest as) : IsSeparated (ls ++ .mark .comma comma :: rest) (a :: as)

/-- Any number of phrases with commas between them; one more comma may follow the last. -/
inductive IsListed : Phrases (List α)
  | nil : IsListed [] []
  | last {ls : List Lexeme} {a : α} (head : item ls a) : IsListed ls [a]
  | cons {ls rest : List Lexeme} {a : α} {as : List α} (comma : Span) (head : item ls a)
      (tail : IsListed rest as) : IsListed (ls ++ .mark .comma comma :: rest) (a :: as)

end Sequences

/-! ## Names and numbers -/

/-- `.name`. -/
inductive IsSegment : Phrases Ident
  | mk (dot : Span) (i : Ident) : IsSegment [.mark .dot dot, i.lexeme] i

/-- A dotted name. -/
inductive IsPath : Phrases Path
  | mk {ls : List Lexeme} {rest : List Ident} (first : Ident) (tail : IsMany IsSegment ls rest) :
      IsPath (first.lexeme :: ls)
        ⟨rest.foldl (fun span segment => span.cover segment.span) first.span, first :: rest⟩

/-- `import "file"` and the segments after it; the span is that of the keyword. -/
inductive IsImport : Phrases (Span × ImportPath × List Ident)
  | mk {raw : String} {cs : List Char} {ls : List Lexeme} {segments : List Ident}
      (start file : Span) (decoded : Escape.decode raw.toList = .ok cs)
      (tail : IsMany IsSegment ls segments) :
      IsImport (.word .importKw start :: .text raw file :: ls)
        (start, ⟨file, String.ofList cs⟩, segments)

/-- `@number`, a number that fits 16 bits. -/
inductive IsOrdinal : Phrases Ordinal
  | mk {s : String} {n : Int} (start number : Span)
      (decoded : (NumericType.int ⟨false, .w16⟩).decode s.toList = .ok (.int n)) :
      IsOrdinal [.mark .atSign start, .number s number] ⟨start.cover number, n.toNat⟩

/-! ## Types -/

/-- A type.  `List` with one parameter is the only one with parameters. -/
inductive IsType : Phrases TypeRef
  | named {ls : List Lexeme} {p : Path} (path : IsPath ls p) : IsType ls (.named p)
  | list {ls : List Lexeme} {t : TypeRef} (list opening closing : Span) (element : IsType ls t) :
      IsType (Ident.lexeme ⟨list, "List"⟩ :: .mark .openParen opening ::
        (ls ++ [.mark .closeParen closing])) (.list (list.cover closing) t)
  | imported {ls : List Lexeme} {start : Span} {source : ImportPath} {segments : List Ident}
      (target : IsImport ls (start, source, segments)) :
      IsType ls (.imported (start.cover ((segments.getLast?.map Ident.span).getD source.span))
        source segments)

/-! ## Literals -/

/-- The literal of a numeral, which the widest type of its shape must be able to hold. -/
inductive IsNumeral (span : Span) (s : String) : Literal → Prop
  | int {base : Base} {n : Number} (shape : Numeral.shape s.toList = .ok (.integer base))
      (decoded : (NumericType.int ⟨s.toList.head? = some '-', .w64⟩).decode s.toList = .ok n) :
      IsNumeral span s (.int span s)
  | float {x : Number} (shape : Numeral.shape s.toList = .ok .float)
      (decoded : (NumericType.float .float64).decodeDecimal s.toList = .ok x) :
      IsNumeral span s (.float span s)

/-- `name = value`. -/
inductive IsInit (value : Phrases Literal) : Phrases (Ident × Literal)
  | mk {ls : List Lexeme} {l : Literal} (i : Ident) (equals : Span) (set : value ls l) :
      IsInit value (i.lexeme :: .mark .equals equals :: ls) (i, l)

/-- A literal of any depth. -/
inductive IsLiteral : Phrases Literal
  | number {s : String} {l : Literal} (span : Span) (numeral : IsNumeral span s l) :
      IsLiteral [.number s span] l
  | negative {s : String} {l : Literal} (minus number : Span)
      (numeral : IsNumeral (minus.cover number) ("-" ++ s) l) :
      IsLiteral [.mark .minus minus, .number s number] l
  | text {raw : String} {cs : List Char} (span : Span)
      (decoded : Escape.decode raw.toList = .ok cs) :
      IsLiteral [.text raw span] (.text span (String.ofList cs))
  | true (span : Span) : IsLiteral [.word .trueKw span] (.bool span true)
  | false (span : Span) : IsLiteral [.word .falseKw span] (.bool span false)
  | void (span : Span) : IsLiteral [.word .voidKw span] (.void span)
  | name {ls : List Lexeme} {p : Path} (path : IsPath ls p) : IsLiteral ls (.name p)
  | list {ls : List Lexeme} {items : List Literal} (opening closing : Span)
      (body : IsListed IsLiteral ls items) :
      IsLiteral (.mark .openBracket opening :: (ls ++ [.mark .closeBracket closing]))
        (.list (opening.cover closing) items)
  | struct {ls : List Lexeme} {fields : List (Ident × Literal)} (opening closing : Span)
      (body : IsListed (IsInit IsLiteral) ls fields) :
      IsLiteral (.mark .openParen opening :: (ls ++ [.mark .closeParen closing]))
        (.struct (opening.cover closing) fields)

/-- A literal that is not nested too deep. -/
def IsShallow : Phrases Literal := fun ls l => IsLiteral ls l ∧ l.depth ≤ Parser.maxLiteralDepth

/-- `= literal`, or nothing. -/
inductive IsDefault : Phrases (Option Literal)
  | none : IsDefault [] none
  | some {ls : List Lexeme} {l : Literal} (equals : Span) (value : IsShallow ls l) :
      IsDefault (.mark .equals equals :: ls) (some l)

/-! ## Annotations -/

/-- `$name`, `$name()`, `$name(field = value, ...)` or `$name(value)`. -/
inductive IsApplication : Phrases Application
  | bare {ls : List Lexeme} {p : Path} (start : Span) (name : IsPath ls p) :
      IsApplication (.mark .dollar start :: ls) ⟨start.cover p.span, p, none⟩
  | void {ls : List Lexeme} {p : Path} (start opening closing : Span) (name : IsPath ls p) :
      IsApplication
        (.mark .dollar start :: (ls ++ [.mark .openParen opening, .mark .closeParen closing]))
        ⟨start.cover closing, p, some (.void (opening.cover closing))⟩
  | fields {ls body : List Lexeme} {p : Path} {fields : List (Ident × Literal)}
      (start opening closing : Span) (name : IsPath ls p)
      (inits : IsListed (IsInit IsShallow) body fields) (nonempty : fields ≠ []) :
      IsApplication (.mark .dollar start ::
        (ls ++ .mark .openParen opening :: (body ++ [.mark .closeParen closing])))
        ⟨start.cover closing, p, some (.struct (opening.cover closing) fields)⟩
  | value {ls body : List Lexeme} {p : Path} {l : Literal} (start opening closing : Span)
      (name : IsPath ls p) (value : IsShallow body l) :
      IsApplication (.mark .dollar start ::
        (ls ++ .mark .openParen opening :: (body ++ [.mark .closeParen closing])))
        ⟨start.cover closing, p, some l⟩

/-- The annotations applied at one place. -/
abbrev IsApplications : Phrases (List Application) := IsMany IsApplication

end Grammar

end SchemaLang
