import CatalogClient.Pipeline.World
/-!
A service that answers from a script. A rule names texts that the line of an attempt has to contain:
its method, its URL and the credential it presents. The first rule that matches and has a reply left
answers.
-/

namespace CatalogClient

structure Rule where
  marks : List String
  replies : List (Reply Response)
  /-- The last reply is given again and again. -/
  repeats : Bool

structure Script where
  rules : List Rule
  tokens : List (Reply TokenGrant)

namespace Script

/-- The line of an attempt that rules look at. -/
def line (a : Attempt) : String :=
  let credential := ((a.headers.find? (·.1 = "Authorization")).map (·.2)).getD ""
  a.method.token ++ " " ++ a.url.render ++ " " ++ credential

def contains (mark : List Char) : List Char → Bool
  | [] => mark.isEmpty
  | c :: cs => mark.isPrefixOf (c :: cs) || contains mark cs

/-- The reply to a line, and the rules that are left. -/
def takeReply (text : List Char) : List Rule → Option (Reply Response × List Rule)
  | [] => none
  | r :: rs =>
    let further := (takeReply text rs).map fun (x, rs) => (x, r :: rs)
    if r.marks.all (contains ·.toList text) then
      match r.replies with
      | [] => further
      | [x] => some (x, (if r.repeats then r else { r with replies := [] }) :: rs)
      | x :: xs => some (x, { r with replies := xs } :: rs)
    else further

def atOnce (answer : Except Failure α) : Reply α := ⟨.zero, answer⟩

def send (a : Attempt) (s : Script) : Reply Response × Script :=
  match takeReply (line a).toList s.rules with
  | some (x, rules) => (x, { s with rules := rules })
  | none => (atOnce (.error (.internal "no scripted reply")), s)

def exchange (_ : Grant) (s : Script) : Reply TokenGrant × Script :=
  match s.tokens with
  | x :: xs => (x, { s with tokens := xs })
  | [] => (atOnce (.error (.internal "no scripted exchange")), s)

/-- Nothing is left to chance. -/
def draw (s : Script) : Nat × Script := (0, s)

def peer : Peer Script := ⟨send, exchange, draw⟩

end Script

end CatalogClient
