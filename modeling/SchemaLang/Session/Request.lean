import SchemaLang.Session

/-!
# Requests to a session

What a session can be asked for, one request after another.  A check answers whether the session has
failed, in this request or an earlier one; printing answers with the text or with nothing.
-/

namespace SchemaLang

/-- A request to a session. -/
inductive Request where
  | load (file : SourceFile)
  | loadBytes (name : String) (bytes : ByteArray)
  | loadFile (name : String)
  | includeDir (dir : String)
  | denyUnresolved (deny : Bool)
  | check (id : TextId) (baseDir : Option String)
  | print (id : TextId)

/-- The answer to a request. -/
inductive Answer where
  | done
  | loaded (id : Option TextId)
  | checked (failed : Bool)
  | printed (text : Option String)

namespace Session

/-- Carries out a request. -/
def perform (files : Files) (s : Session) : Request → Answer × Session
  | .load file =>
    let (id, s) := s.load file
    (.loaded (some id), s)
  | .loadBytes name bytes =>
    let (id, s) := s.loadRead name (textOfBytes bytes)
    (.loaded id, s)
  | .loadFile name =>
    let (id, s) := s.loadFile files name
    (.loaded id, s)
  | .includeDir dir => (.done, { s with includeDirs := s.includeDirs ++ [dir] })
  | .denyUnresolved deny => (.done, { s with denyUnresolved := deny })
  | .check id baseDir =>
    let s := s.check files baseDir id
    (.checked s.failed, s)
  | .print id =>
    let (text, s) := s.print id
    (.printed text, s)

/-- The session after requests that are carried out one after another. -/
def performAll (files : Files) (s : Session) (requests : List Request) : Session :=
  requests.foldl (fun s request => (s.perform files request).2) s

end Session

end SchemaLang
