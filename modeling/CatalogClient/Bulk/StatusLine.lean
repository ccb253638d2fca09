import CatalogClient.Response
/-!
The answer to a collection of writes: a text with one status document on each line that is not
blank.
-/

namespace CatalogClient

structure StatusLine where
  /-- The number of the line, from one; zero where only the key says which line is meant. -/
  line : Nat
  identifier : Option String
  code : Option String
  status : Nat
  message : Option String
  deriving DecidableEq, Repr

namespace StatusLine

open Json Json.Decode

def key? (s : StatusLine) : Option String := s.identifier.or s.code

def decoder : Decoder StatusLine := fun depth d => do
  let fs ← fields ["line", "identifier", "code", "status_code", "message"] depth d
  return {
    line := ← fs.required "line" nat64
    identifier := ← fs.defaulted "identifier" (option string) none
    code := ← fs.defaulted "code" (option string) none
    status := ← fs.required "status_code" nat16
    message := ← fs.defaulted "message" (option string) none }

/-- Absent values are not written. -/
def toJson (s : StatusLine) : Json :=
  Json.ofMembers (
    [("line", Json.ofNat s.line)] ++
    (s.identifier.map fun t => ("identifier", .string t)).toList ++
    (s.code.map fun t => ("code", .string t)).toList ++
    [("status_code", Json.ofNat s.status)] ++
    (s.message.map fun t => ("message", .string t)).toList)

def read (line : String) : Except Failure StatusLine :=
  match text? decoder line with
  | some s => .ok s
  | none => .error (.decode ("invalid bulk status line: " ++ Response.unreadable))

/-- The lines of a text without the blanks around them, less those that are blank. -/
def significantLines (text : String) : List String :=
  ((Text.split '\n' text).map Text.trim).filter (· ≠ "")

/-- The status lines of a text, or the fault of the first line that is none. -/
def readAll (text : String) : Except Failure (List StatusLine) :=
  (significantLines text).mapM read

end StatusLine

end CatalogClient
