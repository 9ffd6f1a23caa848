import SchemaLang.Tree.Error
import SchemaLang.Tree

/-!
# What can be wrong with a schema

Besides the errors of a single source text there are those of an import, which names a module that
is not supplied or does not parse, and those of linking, which bind names and decode values.  The
latter two point into a module, by the path that it was imported under.
-/

namespace SchemaLang

/-- Why an import fails. -/
inductive ImportCause where
  | noSource
  | notFound
  | parse (e : ParseError)
deriving DecidableEq

/-- The wording of the cause. -/
def ImportCause.message : ImportCause → String
  | .noSource => "no import source was supplied"
  | .notFound => "no schema found"
  | .parse e => e.message

/-- A failed import: the module that contains it, where, and the path that it asked for. -/
structure ImportError where
  importer : String
  span : Span
  path : String
  cause : ImportCause
deriving DecidableEq

/-- Why a module cannot be linked. -/
inductive LinkCause where
  | importedNameNotFound (name source : String)
  | unresolvedBase (type : String)
  | notAnInterface (type : String)
  | cyclicInheritance (name : String)
  | expectedType (type : String)
  | notAnAnnotationDecl (name : String)
  | targetMismatch (name : String) (target : Target)
  | notAConstant (path : String)
  | duplicateName (name : String) (first : Span)
  | duplicateOrdinal (value : Nat) (first : Span)
  | unknownField (name parent : String) (suggestion : Option String)
  | unknownEnumerant (name parent : String) (suggestion : Option String)
  | invalidNumeral (e : NumeralError)
  | mismatchedLiteral (expected found : String)
deriving DecidableEq

/-- The wording of the cause. -/
def LinkCause.message : LinkCause → String
  | .importedNameNotFound name source =>
    "cannot find `" ++ name ++ "` in imported module `" ++ source ++ "`"
  | .unresolvedBase type => "cannot find base interface `" ++ type ++ "`"
  | .notAnInterface type => "`" ++ type ++ "` is not an interface"
  | .cyclicInheritance name => "interface `" ++ name ++ "` extends itself"
  | .expectedType type => "`" ++ type ++ "` is not a type"
  | .notAnAnnotationDecl name => "`" ++ name ++ "` is not an annotation"
  | .targetMismatch name target =>
    "annotation `" ++ name ++ "` cannot be applied to a " ++ target.name
  | .notAConstant path => "`" ++ path ++ "` is not a constant"
  | .duplicateName name _ => "`" ++ name ++ "` is defined more than once"
  | .duplicateOrdinal value _ => "ordinal @" ++ toString value ++ " is used more than once"
  | .unknownField name parent _ => "no field `" ++ name ++ "` in `" ++ parent ++ "`"
  | .unknownEnumerant name parent _ => "no enumerant `" ++ name ++ "` in `" ++ parent ++ "`"
  | .invalidNumeral e => "invalid numeric literal: " ++ e.message
  | .mismatchedLiteral expected found =>
    "mismatched literal, expected " ++ expected ++ ", found " ++ found

/-- A failure to link a module. -/
structure LinkError where
  module : String
  span : Span
  cause : LinkCause
deriving DecidableEq

/-- Any error of a schema. -/
inductive SchemaError where
  | parse (e : ParseError)
  | importing (e : ImportError)
  | linking (e : LinkError)
deriving DecidableEq

namespace SchemaError

/-- The wording of the error. -/
def message : SchemaError → String
  | .parse e => e.message
  | .importing e => "cannot import `" ++ e.path ++ "`: " ++ e.cause.message
  | .linking e => e.cause.message

/-- The path of the module that the error points into, unless it concerns a text on its own. -/
def module? : SchemaError → Option String
  | .parse _ => none
  | .importing e => some e.importer
  | .linking e => some e.module

/-- The bytes that the error concerns. -/
def span : SchemaError → Span
  | .parse e => e.span
  | .importing e => e.span
  | .linking e => e.span

end SchemaError

end SchemaLang
