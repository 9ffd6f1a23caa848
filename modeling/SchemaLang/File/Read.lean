/-!
# Reading files

What can keep a file from being read as text, and the files that a program can read.
-/

namespace SchemaLang

/-- Why a file cannot be read as text. -/
inductive ReadFailure where
  | missing
  | notDirectory
  | isDirectory
  | nameTooLong
  | zeroInName
  | notText
  | refused (reason : String)
deriving DecidableEq

/-- The wording of a failure that the operating system reports. -/
def ReadFailure.systemMessage (reason : String) (code : Nat) : String :=
  reason ++ " (os error " ++ toString code ++ ")"

/-- The wording of the failure. -/
def ReadFailure.message : ReadFailure → String
  | .missing => systemMessage "No such file or directory" 2
  | .notDirectory => systemMessage "Not a directory" 20
  | .isDirectory => systemMessage "Is a directory" 21
  | .nameTooLong => systemMessage "File name too long" 36
  | .zeroInName => "file name contained an unexpected NUL byte"
  | .notText => "stream did not contain valid UTF-8"
  | .refused reason => reason

/-- Bytes that are read as text in UTF-8. -/
def textOfBytes (bytes : ByteArray) : Except ReadFailure String :=
  match String.fromUTF8? bytes with
  | some text => .ok text
  | none => .error .notText

/-- The files that can be read, by their names.  They have at most `volume` bytes together, where a
file that has several names counts once. -/
structure Files where
  read : String → Except ReadFailure ByteArray
  volume : Nat

namespace Files

/-- The text of a file. -/
def readText (files : Files) (name : String) : Except ReadFailure String :=
  files.read name >>= textOfBytes

/-- The files of a list, by exactly the names that it gives. -/
def ofList (known : List (String × Except ReadFailure ByteArray)) : Files where
  read := fun name => (known.lookup name).getD (.error .missing)
  volume := known.foldl (fun n (_, content) => n + (content.toOption.map ByteArray.size).getD 0) 0

end Files

end SchemaLang
