import CatalogClient.Url.Host
/-!
The reader of absolute URLs. Control characters and spaces around the text and line breaks and tabs
anywhere in it do not count. Dot segments of a path are carried out while it is read.
-/

namespace CatalogClient.Url

def isEdge (c : Char) : Bool := c ≤ ' '

def isBreak (c : Char) : Bool := c = '\t' || c = '\n' || c = '\r'

/-- The characters of the text that count. -/
def clean (cs : List Char) : List Char :=
  ((cs.dropWhile isEdge).reverse.dropWhile isEdge).reverse.filter (! isBreak ·)

def isSchemeChar (c : Char) : Bool := isAsciiAlphanumeric c || c = '+' || c = '-' || c = '.'

def readScheme? (cs : List Char) : Option (String × List Char) :=
  match cs with
  | c :: _ =>
    if ('a' ≤ c ∧ c ≤ 'z') ∨ ('A' ≤ c ∧ c ≤ 'Z') then
      match cs.dropWhile isSchemeChar with
      | ':' :: rest => some (String.ofList ((cs.takeWhile isSchemeChar).map Char.toLower), rest)
      | _ => none
    else none
  | [] => none

/-- A slash, or a backslash where the scheme is special. -/
def isSlash (special : Bool) (c : Char) : Bool := c = '/' || (special && c = '\\')

/-- The text before the last occurrence of a character, and behind it. -/
def cutLast? (sep : Char) (cs : List Char) : Option (List Char × List Char) :=
  (Text.cut? sep cs.reverse).map fun (a, b) => (b.reverse, a.reverse)

structure Userinfo where
  username : String
  password : Option String

/-- The part before the last at sign of an authority. An empty password is none. -/
def readUserinfo (cs : List Char) : Userinfo :=
  let encode (part : List Char) := String.ofList (escape keptInUserinfo part)
  match Text.cut? ':' cs with
  | none => ⟨encode cs, none⟩
  | some (name, []) => ⟨encode name, none⟩
  | some (name, word) => ⟨encode name, some (encode word)⟩

/-- The host part of an authority and what is behind it; a colon in brackets does not end it. -/
def cutHost : Bool → List Char → List Char × List Char
  | _, [] => ([], [])
  | bracketed, c :: cs =>
    if c = ':' ∧ ¬ bracketed then ([], c :: cs)
    else
      let (host, rest) := cutHost (if c = '[' then true else if c = ']' then false else bracketed) cs
      (c :: host, rest)

/-- The port of a scheme, `none` when it is not given or is the scheme's own. -/
def readPort (scheme : String) (cs : List Char) : Except UrlFault (Option Nat) :=
  if ¬ cs.all Decimal.isDigit ∨ 65535 < Decimal.value cs then .error .invalidPort
  else if cs = [] ∨ some (Decimal.value cs) = defaultPort? scheme then .ok none
  else .ok (some (Decimal.value cs))

def isDoubleDot (s : List Char) : Bool :=
  String.ofList (s.map Char.toLower) ∈ ["..", ".%2e", "%2e.", "%2e%2e"]

def isSingleDot (s : List Char) : Bool :=
  String.ofList (s.map Char.toLower) ∈ [".", "%2e"]

def isDrive : List Char → Bool
  | [c, ':'] | [c, '|'] => ('a' ≤ c && c ≤ 'z') || ('A' ≤ c && c ≤ 'Z')
  | _ => false

/-- Carries out one written segment on the segments read so far, the last one first. `last` says
that no slash follows it. A drive letter at the head of a file path is not removed. -/
def walk (file : Bool) (done : List (List Char)) (segment : List Char) (last : Bool) :
    List (List Char) :=
  if isDoubleDot segment then
    let shortened := match done with
      | [d] => if file && isDrive d then [d] else []
      | d => d.drop 1
    if last then [] :: shortened else shortened
  else if isSingleDot segment then
    if last then [] :: done else done
  else if file && done.isEmpty && isDrive segment then [segment.take 1 ++ [':']]
  else segment :: done

def walkAll (file : Bool) : List (List Char) → List (List Char) → List (List Char)
  | done, [] => done
  | done, [s] => walk file done s true
  | done, s :: ss => walkAll file (walk file done s false) ss

/-- The segments between the slashes of a path, dot segments carried out. The path is given without
its first slash. -/
def readSegments (special file : Bool) (cs : List Char) : UrlPath :=
  let unified := cs.map fun c => if isSlash special c then '/' else c
  let written := (Text.splitList '/' unified).map (escape keptInPath)
  let parts := (walkAll file [] written).reverse
  let parts := if file then (match parts.dropWhile (· = []) with | [] => [[]] | ps => ps) else parts
  .segments (parts.map String.ofList)

/-- The text before the query, the query and the fragment. -/
def cutTail (cs : List Char) : List Char × Option (List Char) × Option (List Char) :=
  let (front, fragment) := match Text.cut? '#' cs with
    | none => (cs, none)
    | some (a, b) => (a, some b)
  match Text.cut? '?' front with
  | none => (front, none, fragment)
  | some (a, b) => (a, some b, fragment)

/-- The path behind an authority: without a leading slash it is empty, which a special scheme writes
as a single slash. -/
def readAuthorityPath (special file : Bool) : List Char → UrlPath
  | [] => if special then .segments [""] else .segments []
  | c :: cs =>
    if isSlash special c then readSegments special file cs else readSegments special file (c :: cs)

def build (scheme : String) (user : Userinfo) (host : Option Host) (port : Option Nat)
    (path : UrlPath) (query fragment : Option (List Char)) : Url :=
  ⟨scheme, user.username, user.password, host, port, path,
    query.map fun q => String.ofList (escape (keptInQuery (isSpecial scheme)) q),
    fragment.map fun f => String.ofList (escape keptInFragment f)⟩

def noUser : Userinfo := ⟨"", none⟩

/-- A URL with an authority, read behind its two slashes. -/
def readAuthority (scheme : String) (cs : List Char) : Except UrlFault Url := do
  let special := isSpecial scheme
  let (front, query, fragment) := cutTail cs
  let authority := front.takeWhile (! isSlash special ·)
  let pathText := front.dropWhile (! isSlash special ·)
  let (user, hostPort) ← match cutLast? '@' authority with
    | none => pure (noUser, authority)
    | some (userinfo, rest) =>
      if userinfo = [] ∧ rest = [] ∧ (special ∨ cs.drop authority.length ≠ []) then
        throw .emptyHost
      else pure (readUserinfo userinfo, rest)
  let (hostText, portText) := cutHost false hostPort
  if special ∧ hostText = [] then throw .emptyHost
  let host ← if special then Host.readSpecial hostText else Host.readOther hostText
  let port ← match portText with
    | [] => pure none
    | _ :: ds => if hostText = [] then throw .emptyHost else readPort scheme ds
  if hostText = [] ∧ (user.username ≠ "" ∨ user.password.isSome) then throw .emptyHost
  return build scheme user (some host) port (readAuthorityPath special false pathText) query fragment

/-- A URL of the file scheme: the host may be empty, and `localhost` is the empty host. -/
def readFile (cs : List Char) : Except UrlFault Url := do
  let (front, query, fragment) := cutTail cs
  let make (host : Host) (path : List Char) :=
    build "file" noUser (some host) none (readAuthorityPath true true path) query fragment
  match front with
  | a :: b :: rest =>
    if isSlash true a ∧ isSlash true b then
      let hostText := rest.takeWhile (! isSlash true ·)
      if hostText = [] ∨ isDrive hostText then return make (.domain "") rest
      else
        let host ← Host.readSpecial hostText
        let host := if host = .domain "localhost" then .domain "" else host
        return make host (rest.dropWhile (! isSlash true ·))
    else return make (.domain "") front
  | _ => return make (.domain "") front

def readOther (scheme : String) (cs : List Char) : Except UrlFault Url := do
  match cs with
  | '/' :: '/' :: rest => readAuthority scheme rest
  | '/' :: rest =>
    let (front, query, fragment) := cutTail rest
    return build scheme noUser none none (readSegments false false front) query fragment
  | rest =>
    let (front, query, fragment) := cutTail rest
    return build scheme noUser none none (.text (String.ofList (escape notControl front))) query fragment

def read (s : String) : Except UrlFault Url :=
  match readScheme? (clean s.toList) with
  | none => .error .relativeWithoutBase
  | some (scheme, rest) =>
    if scheme = "file" then readFile rest
    else if isSpecial scheme then readAuthority scheme (rest.dropWhile (isSlash true ·))
    else readOther scheme rest

end CatalogClient.Url
