import SchemaLang.Diagnostic
import SchemaLang.Import.Search
import SchemaLang.Link.Linker
import SchemaLang.Schema.Query
import SchemaLang.Text.Position
import SchemaLang.Tree.Layout

/-!
# Sessions

A `Session` is a run of work on schemas: it keeps the texts that were loaded, each with a number, and
the log of all that was reported.  Checking a schema adds every imported file to the texts, also when
it fails.  A session that has once reported an error or a bug has failed, and stays so.
-/

namespace SchemaLang

/-! ## Reports -/

/-- A place in a loaded text. -/
structure Place where
  file : String
  position : Position
deriving DecidableEq

/-- A diagnostic as it is shown: only the primary label is left, as a place. -/
structure Report where
  severity : Severity
  message : String
  place : Option Place
  notes : List String
deriving DecidableEq

namespace Report

/-- A report that concerns no place. -/
def ofMessage (severity : Severity) (message : String) : Report := ⟨severity, message, none, []⟩

/-- The report of a diagnostic about a loaded text. -/
def ofDiagnostic (file : SourceFile) (d : Diagnostic) : Report where
  severity := d.severity
  message := d.message
  place := (d.labels.find? (·.primary)).map fun label =>
    ⟨file.name, .ofOffset file.text label.span.start⟩
  notes := d.notes

/-- The lines of a report. -/
def lines (r : Report) : List String :=
  (r.severity.describe ++ ": " ++ r.message) ::
    (r.place.toList.map fun p =>
      "at " ++ p.file ++ ":" ++ toString p.position.line ++ ":" ++ toString p.position.column) ++
    r.notes.map fun note => "note " ++ note

end Report

/-! ## Sessions -/

/-- The number of a loaded text. -/
abbrev TextId := Nat

/-- The texts that were loaded, in the order of their numbers, how schemas are checked, and what was
reported so far. -/
structure Session where
  texts : Array SourceFile
  includeDirs : List String
  denyUnresolved : Bool
  log : Array Report

namespace Session

/-- Nothing is loaded, there are no include directories, and unresolved names are let pass with a
warning. -/
def fresh : Session := ⟨#[], [], false, #[]⟩

/-- Something was reported that is a failure. -/
def failed (s : Session) : Bool := s.log.any (·.severity.isFailure)

/-- Adds a report to the log. -/
def report (s : Session) (r : Report) : Session := { s with log := s.log.push r }

/-- Reports a diagnostic about a loaded text. -/
def reportIn (s : Session) (file : SourceFile) (d : Diagnostic) : Session :=
  s.report (.ofDiagnostic file d)

/-! ## Loading texts -/

/-- Adds a text and gives its number. -/
def load (file : SourceFile) (s : Session) : TextId × Session :=
  (s.texts.size, { s with texts := s.texts.push file })

/-- Adds a text that was read, or reports why it could not be. -/
def loadRead (name : String) (text : Except ReadFailure String) (s : Session) :
    Option TextId × Session :=
  match text with
  | .ok text =>
    let (id, s) := s.load ⟨name, text⟩
    (some id, s)
  | .error e =>
    (none, s.report (.ofMessage .error ("couldn't read `" ++ name ++ "`: " ++ e.message)))

/-- Adds the text of a file. -/
def loadFile (files : Files) (name : String) (s : Session) : Option TextId × Session :=
  s.loadRead name (files.readText name)

/-! ## Printing -/

/-- The module in a loaded text.  It is reported if there is none. -/
def parse (id : TextId) (s : Session) : Option (SourceFile × Module) × Session :=
  match s.texts[id]? with
  | none => (none, s.report (.ofMessage .bug "file missing"))
  | some file =>
    match Module.parse file.text with
    | .ok m => (some (file, m), s)
    | .error e => (none, s.reportIn file e.diagnostic)

/-- Prints the schema in a loaded text, if there is one. -/
def print (id : TextId) (s : Session) : Option String × Session :=
  let (parsed, s) := s.parse id
  (parsed.map fun (_, m) => m.print, s)

/-! ## Checking -/

/-- The texts of the modules of a schema, by their import paths. -/
abbrev ModuleTexts := List (String × SourceFile)

/-- Reports an error in the module that it points into and, for an import that does not parse, also
in the imported text. -/
def reportError (texts : ModuleTexts) (e : SchemaError) (s : Session) : Session :=
  let s := match e.module?.bind fun module => texts.lookup module with
    | some file => s.reportIn file e.diagnostic
    | none => s.report (.ofMessage .error e.message)
  match e with
  | .importing ⟨_, _, path, .parse inner⟩ =>
    match texts.lookup path with
    | some file => s.reportIn file inner.diagnostic
    | none => s
  | _ => s

/-- The report of a name that was left unresolved in a module. -/
def unresolvedReport (texts : ModuleTexts) (severity : Severity) (module : String) (p : Path) :
    Report :=
  let message := "cannot find `" ++ p.text ++ "`"
  match texts.lookup module with
  | some file =>
    .ofDiagnostic file ⟨severity, message, [⟨true, p.span, "not found in this scope"⟩], []⟩
  | none => ⟨severity, message, none, ["in module `" ++ module ++ "`"]⟩

/-- The order of unresolved names: by module, and in a module by where they begin. -/
def unresolvedBefore (a b : ModuleId × Path) : Bool :=
  a.1 < b.1 || a.1 == b.1 && a.2.span.start ≤ b.2.span.start

/-- Reports every name that was left unresolved in a schema. -/
def reportUnresolved (texts : ModuleTexts) (schema : Schema) (s : Session) : Session :=
  let severity := if s.denyUnresolved then .error else .warning
  (schema.unresolved.mergeSort unresolvedBefore).foldl (fun s (id, p) =>
    let path := (schema.modules[id]?.map (·.path)).getD ""
    s.report (unresolvedReport texts severity path p)) s

/-- The texts of a checked module and of the imports that were asked for and found. -/
def moduleTexts (files : Files) (search : ImportSearch) (file : SourceFile)
    (requested : List String) : ModuleTexts :=
  (Load.rootPath, file) :: requested.filterMap fun path =>
    (search.find? files path).map fun found => (path, found)

/-- Checks a parsed schema, whose imports are looked up from `baseDir`. -/
def checkModule (files : Files) (baseDir : Option String) (file : SourceFile) (m : Module)
    (s : Session) : Session :=
  let search : ImportSearch := ⟨baseDir, s.includeDirs⟩
  let resolution := resolve (some (search.source files file.text.utf8ByteSize)) m
  let texts := moduleTexts files search file resolution.requested.toList
  let s := { s with texts := s.texts ++ texts.tail.map Prod.snd }
  match resolution.result with
  | .ok schema => s.reportUnresolved texts schema
  | .error e => s.reportError texts e

/-- Checks the schema in a loaded text and all that it imports. -/
def check (files : Files) (baseDir : Option String) (id : TextId) (s : Session) : Session :=
  match s.parse id with
  | (some (file, m), s) => s.checkModule files baseDir file m
  | (none, s) => s

end Session

end SchemaLang
