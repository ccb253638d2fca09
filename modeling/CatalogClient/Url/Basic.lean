import CatalogClient.Url.Percent
import CatalogClient.Decimal.Digits
/-!
URLs in parsed form, and their text.
-/

namespace CatalogClient

inductive Host
  | domain (name : String)
  | ipv4 (address : Nat)
  | ipv6 (pieces : List Nat)
  deriving DecidableEq, Repr

/-- A path is a list of segments, each with a slash before it, or, in a URL without an authority,
any text that does not begin with a slash. -/
inductive UrlPath
  | segments (parts : List String)
  | text (s : String)
  deriving DecidableEq, Repr

structure Url where
  scheme : String
  username : String
  password : Option String
  host : Option Host
  port : Option Nat
  path : UrlPath
  query : Option String
  fragment : Option String
  deriving DecidableEq, Repr

namespace Host

/-- The first longest run of zero pieces, as its start and length, if it is longer than one. -/
def zeroRun (pieces : List Nat) : Option (Nat × Nat) :=
  let runs := (List.range pieces.length).map fun i => (i, ((pieces.drop i).takeWhile (· = 0)).length)
  let best := runs.foldl (fun (b : Nat × Nat) r => if b.2 < r.2 then r else b) (0, 0)
  if 1 < best.2 then some best else none

def writePieces (pieces : List Nat) : List Char :=
  List.intercalate [':'] (pieces.map (Nat.toDigits 16))

def write : Host → List Char
  | .domain name => name.toList
  | .ipv4 a =>
    List.intercalate ['.'] ([a / 16777216, a / 65536 % 256, a / 256 % 256, a % 256].map Decimal.write)
  | .ipv6 pieces =>
    '[' :: (match zeroRun pieces with
      | some (start, length) =>
        writePieces (pieces.take start) ++ [':', ':'] ++ writePieces (pieces.drop (start + length))
      | none => writePieces pieces) ++ [']']

end Host

namespace Url

def isSpecial (scheme : String) : Bool :=
  scheme ∈ ["http", "https", "ws", "wss", "ftp", "file"]

def defaultPort? (scheme : String) : Option Nat :=
  if scheme = "http" ∨ scheme = "ws" then some 80
  else if scheme = "https" ∨ scheme = "wss" then some 443
  else if scheme = "ftp" then some 21
  else none

def writeAuthority (u : Url) (h : Host) : List Char :=
  let password := match u.password with
    | none => []
    | some p => ':' :: p.toList
  let userinfo := u.username.toList ++ password
  ['/', '/'] ++ (if userinfo = [] then [] else userinfo ++ ['@']) ++ h.write ++
    match u.port with
    | none => []
    | some p => ':' :: Decimal.write p

def writePath : UrlPath → List Char
  | .segments parts => parts.flatMap fun s => '/' :: s.toList
  | .text s => s.toList

/-- Without an authority, a path whose first segment is empty gets a dot segment in front, so that
it does not read as an authority. -/
def writeHierarchy (u : Url) : List Char :=
  match u.host with
  | some h => u.writeAuthority h ++ writePath u.path
  | none =>
    match u.path with
    | .segments ("" :: _ :: _) => ['/', '.'] ++ writePath u.path
    | p => writePath p

def writeQuery (u : Url) : List Char :=
  match u.query with
  | none => []
  | some q => '?' :: q.toList

def writeFragment (u : Url) : List Char :=
  match u.fragment with
  | none => []
  | some f => '#' :: f.toList

def render (u : Url) : String :=
  String.ofList (u.scheme.toList ++ ':' :: u.writeHierarchy ++ u.writeQuery ++ u.writeFragment)

/-- Pairs appended to the query in form encoding. -/
def withPairs (u : Url) (pairs : List (String × String)) : Url :=
  let encoded := Form.encodePairs pairs
  let old := (u.query.getD "").toList
  let joined := if old = [] ∨ encoded = [] then old ++ encoded else old ++ '&' :: encoded
  { u with query := some (String.ofList joined) }

def pairs (u : Url) : List (String × String) :=
  Form.decodePairs (u.query.getD "").toList

end Url

end CatalogClient
