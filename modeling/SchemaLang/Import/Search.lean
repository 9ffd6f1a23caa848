import SchemaLang.File.Name
import SchemaLang.File.Read
import SchemaLang.Import.Load

/-!
# Searching for imported files

An import path is looked up in directories, and the first file that can be read as text is the
module.  A relative path is tried in the base directory and then in each include directory, a rooted
one, which begins with a slash, only in the include directories.
-/

namespace SchemaLang

/-- A text that was read, under the name that reports show. -/
structure SourceFile where
  name : String
  text : String
deriving DecidableEq

/-- The directories in which imports are looked up. -/
structure ImportSearch where
  baseDir : Option String
  includeDirs : List String

namespace ImportSearch

variable (search : ImportSearch)

/-- The names of the files that an import path may stand for, in the order in which they are
tried. -/
def candidates (path : String) : List String :=
  match path.toList with
  | '/' :: rest => search.includeDirs.map fun dir => FileName.join dir (String.ofList rest)
  | _ => (search.baseDir.toList ++ search.includeDirs).map fun dir => FileName.join dir path

/-- The first candidate that can be read. -/
def find? (files : Files) (path : String) : Option SourceFile :=
  (search.candidates path).findSome? fun name =>
    (files.readText name).toOption.map fun text => ⟨name, text⟩

/-- The imports of a root module whose text has `size` bytes.  Every path that is asked for stands
in that text or in one of the files, so no more paths are asked for than there are bytes. -/
def source (files : Files) (size : Nat) : ImportSource where
  read := fun path => (search.find? files path).map (·.text)
  depth := files.volume + size

end ImportSearch

end SchemaLang
