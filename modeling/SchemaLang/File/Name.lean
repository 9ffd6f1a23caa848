/-!
# Names of files

A file is named by the directories on the way to it and its own name, with slashes between them.  A
name that begins with a slash is absolute; any other is relative to some directory.  The system
limits the length of a name and of each of its parts.
-/

namespace SchemaLang.FileName

/-- The most bytes that a name may have. -/
def maxBytes : Nat := 4095

/-- The most bytes that one part of a name may have. -/
def maxPartBytes : Nat := 255

/-- The name begins at the top of the file system. -/
def isAbsolute (name : String) : Bool := name.toList.head? = some '/'

/-- The name, which is relative to `dir`, seen from where `dir` is.  An absolute name stands for
itself. -/
def join (dir name : String) : String :=
  if isAbsolute name then name
  else if dir.toList.getLast?.all (· = '/') then dir ++ name
  else dir ++ "/" ++ name

/-- A name that is read from its end, without the slashes and the single dots that it ends in and
that lead nowhere.  The first character of the name stays. -/
def dropIdle : List Char → List Char
  | '/' :: c :: cs => dropIdle (c :: cs)
  | '.' :: '/' :: cs => dropIdle ('/' :: cs)
  | cs => cs

/-- The name of the directory that a file stands in; it is empty for a name without directories.
Nothing contains the top of the file system. -/
def parent? (name : String) : Option String :=
  match dropIdle name.toList.reverse with
  | [] => none
  | ['/'] => none
  | cs => some (String.ofList (dropIdle (cs.dropWhile (· ≠ '/'))).reverse)

/-- A relative name follows its directory, with or without a slash between them. -/
theorem join_relative {dir name : String} (absolute : isAbsolute name = false) :
    join dir name = dir ++ name ∨ join dir name = dir ++ "/" ++ name := by
  simp only [join, absolute]
  split
  · contradiction
  · split
    · exact .inl rfl
    · exact .inr rfl

/-- An absolute name replaces the directory. -/
theorem join_absolute {dir name : String} (absolute : isAbsolute name) : join dir name = name := by
  simp [join, absolute]

end SchemaLang.FileName
