import SchemaLang.File.Name
import SchemaLang.File.Read
import SchemaLang.Text.Split

/-!
# A directory and all that is in it

A `FileTree` holds the files below the current directory.  A name is followed through it part by
part: a single dot or nothing stays, two dots go up, and anything else goes down.  Of what lies
outside the directory only the directories above it are known, and nothing is found in them.  A name
that is too long leads nowhere, even if it has a shorter form; a part that is too long does so once
the directory that it is looked up in is reached.
-/

namespace SchemaLang

/-- The files below a directory, each with the parts of its name. -/
structure FileTree where
  files : List (List String × ByteArray)

namespace FileTree

/-- A place in or above the directory of a tree. -/
inductive Place where
  | above
  | inside (parts : List String)
deriving DecidableEq

/-- What is found at a place. -/
inductive Node where
  | directory
  | file (content : ByteArray)

variable (t : FileTree)

/-- The parts lead to a directory of the tree. -/
def isDirectory (parts : List String) : Bool :=
  parts.isEmpty || t.files.any fun (name, _) => parts.isPrefixOf name && name ≠ parts

/-- What is found at a place. -/
def node? : Place → Option Node
  | .above => some .directory
  | .inside parts =>
    match t.files.lookup parts with
    | some content => some (.file content)
    | none => if t.isDirectory parts then some .directory else none

/-- The place above a place. -/
def up : Place → Place
  | .above => .above
  | .inside parts => if parts.isEmpty then .above else .inside parts.dropLast

/-- The place of a part of a name in a directory, if there is something. -/
def down (part : String) (place : Place) : Except ReadFailure Place :=
  if FileName.maxPartBytes < part.utf8ByteSize then .error .nameTooLong
  else match place with
    | .above => .error .missing
    | .inside parts =>
      let place := .inside (parts ++ [part])
      if (t.node? place).isSome then .ok place else .error .missing

/-- Follows one part of a name, from a place that must be a directory. -/
def follow (place : Place) (part : String) : Except ReadFailure Place :=
  match t.node? place with
  | some .directory =>
    if part = "" ∨ part = "." then .ok place
    else if part = ".." then .ok (up place)
    else t.down part place
  | some (.file _) => .error .notDirectory
  | none => .error .missing

/-- The place that a name leads to. -/
def find (name : String) : Except ReadFailure Place :=
  if name.toList.contains '\x00' then .error .zeroInName
  else if name = "" then .error .missing
  else if FileName.maxBytes < name.utf8ByteSize then .error .nameTooLong
  else
    let start : Place := if FileName.isAbsolute name then .above else .inside []
    ((partsBetween '/' name.toList).map String.ofList).foldlM t.follow start

/-- The bytes of the file that a name leads to. -/
def read (name : String) : Except ReadFailure ByteArray := do
  match t.node? (← t.find name) with
  | some (.file content) => return content
  | some .directory => throw .isDirectory
  | none => throw .missing

/-- The files of a tree. -/
def toFiles : Files where
  read := t.read
  volume := t.files.foldl (fun n (_, content) => n + content.size) 0

/-- The parts of a name, without those that lead nowhere or back up. -/
def plainParts (name : String) : List String :=
  ((partsBetween '/' name.toList).map String.ofList).foldl (fun parts p =>
    if p = "" ∨ p = "." then parts
    else if p = ".." then parts.dropLast
    else parts ++ [p]) []

/-- The tree of files that are given with their names. -/
def ofList (files : List (String × ByteArray)) : FileTree where
  files := files.map fun (name, content) => (plainParts name, content)

end FileTree

end SchemaLang
