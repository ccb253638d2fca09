import CatalogClient.Proofs.Url.Host
import CatalogClient.Proofs.Url.Path
/-!
What the reader leaves of a URL for the web: every part of it is in the form in which it is written.
-/

namespace CatalogClient.Url

variable {u : Url} {cs : List Char}

/-- What was read of a URL for the web. -/
structure Canonical (u : Url) : Prop where
  scheme : u.scheme = "http" ∨ u.scheme = "https"
  username : ∀ c ∈ u.username.toList, keptInUserinfo c = true
  password : ∀ p, u.password = some p → p.toList ≠ [] ∧ ∀ c ∈ p.toList, keptInUserinfo c = true
  host : ∃ h, u.host = some h ∧ h.Canonical
  port : ∀ p, u.port = some p → p ≤ 65535 ∧ some p ≠ defaultPort? u.scheme
  path : ∃ parts : List (List Char), u.path = .segments (parts.map String.ofList) ∧ parts ≠ [] ∧
    ∀ s ∈ parts, Segment s
  query : ∀ q, u.query = some q → ∀ c ∈ q.toList, keptInQuery true c = true
  fragment : ∀ f, u.fragment = some f → ∀ c ∈ f.toList, keptInFragment c = true

/-! ## What is read -/

theorem kept_of_mem_escape {kept : Char → Bool} (hall : ∀ c, inEscape c = true → kept c = true) {c : Char}
    (h : c ∈ escape kept cs) : kept c = true := by
  rcases mem_escape h with ⟨-, hkept⟩ | hescape
  · exact hkept
  · exact hall c hescape

structure Userinfo.Canonical (user : Userinfo) : Prop where
  username : ∀ c ∈ user.username.toList, keptInUserinfo c = true
  password : ∀ p, user.password = some p → p.toList ≠ [] ∧ ∀ c ∈ p.toList, keptInUserinfo c = true

theorem noUser_canonical : noUser.Canonical :=
  ⟨fun _ hc => absurd hc List.not_mem_nil, fun _ hp => by cases hp⟩

theorem readUserinfo_canonical (cs : List Char) : (readUserinfo cs).Canonical := by
  have hkept : ∀ cs : List Char, ∀ c ∈ (String.ofList (escape keptInUserinfo cs)).toList,
      keptInUserinfo c = true := by
    intro cs c hc
    rw [String.toList_ofList] at hc
    exact kept_of_mem_escape (fun _ h => (kept_of_inEscape h).1) hc
  unfold readUserinfo
  dsimp only
  split
  · exact ⟨hkept _, fun _ hp => by cases hp⟩
  · exact ⟨hkept _, fun _ hp => by cases hp⟩
  · rename_i name word hne _
    refine ⟨hkept _, fun p hp => ?_⟩
    cases hp
    refine ⟨fun hnil => hne ?_, hkept _⟩
    rw [String.toList_ofList] at hnil
    exact escape_eq_nil hnil

theorem readPort_ok {scheme : String} {port : Option Nat} (h : readPort scheme cs = .ok port) :
    ∀ p, port = some p → p ≤ 65535 ∧ some p ≠ defaultPort? scheme := by
  unfold readPort at h
  split at h
  · cases h
  · rename_i hvalid
    split at h
    · cases h
      exact fun _ hp => by cases hp
    · rename_i hgiven
      cases h
      rintro p hp
      cases hp
      rw [not_or] at hvalid hgiven
      exact ⟨Nat.not_lt.mp hvalid.2, hgiven.2⟩

theorem readAuthorityPath_segments (cs : List Char) :
    ∃ parts : List (List Char), readAuthorityPath true false cs = .segments (parts.map String.ofList) ∧
      parts ≠ [] ∧ ∀ s ∈ parts, Segment s := by
  cases cs with
  | nil =>
    refine ⟨[[]], rfl, List.cons_ne_nil _ _, fun s hs => ?_⟩
    cases List.mem_singleton.mp hs
    exact segment_nil
  | cons c cs =>
    rw [readAuthorityPath]
    split
    · exact readSegments_segments cs
    · exact readSegments_segments (c :: cs)

theorem build_canonical {scheme : String} {user : Userinfo} {h : Host} {port : Option Nat} {path : UrlPath}
    {query fragment : Option (List Char)} (hscheme : scheme = "http" ∨ scheme = "https")
    (huser : user.Canonical) (hhost : h.Canonical)
    (hport : ∀ p, port = some p → p ≤ 65535 ∧ some p ≠ defaultPort? scheme)
    (hpath : ∃ parts : List (List Char), path = .segments (parts.map String.ofList) ∧ parts ≠ [] ∧
      ∀ s ∈ parts, Segment s) :
    (build scheme user (some h) port path query fragment).Canonical where
  scheme := hscheme
  username := huser.username
  password := huser.password
  host := ⟨h, rfl, hhost⟩
  port := hport
  path := hpath
  query := by
    intro q hq c hc
    obtain ⟨cs, -, rfl⟩ := Option.map_eq_some_iff.mp hq
    have hspecial : isSpecial scheme = true := by rcases hscheme with rfl | rfl <;> rfl
    rw [String.toList_ofList, hspecial] at hc
    exact kept_of_mem_escape (fun _ h => (kept_of_inEscape h).2.2.1) hc
  fragment := by
    intro f hf c hc
    obtain ⟨cs, -, rfl⟩ := Option.map_eq_some_iff.mp hf
    rw [String.toList_ofList] at hc
    exact kept_of_mem_escape (fun _ h => (kept_of_inEscape h).2.2.2) hc

/-! ## The reader for the web

Where a scheme is special the host is not empty, and that decides most of what the reader asks. -/

def authorityText (cs : List Char) : List Char := (cutTail cs).1.takeWhile (! isSlash true ·)

def pathText (cs : List Char) : List Char := (cutTail cs).1.dropWhile (! isSlash true ·)

def readUser (authority : List Char) : Except UrlFault (Userinfo × List Char) :=
  match cutLast? '@' authority with
  | none => .ok (noUser, authority)
  | some (userinfo, rest) =>
    if userinfo = [] ∧ rest = [] then .error .emptyHost else .ok (readUserinfo userinfo, rest)

def readHost (text : List Char) : Except UrlFault Host :=
  if text = [] then .error .emptyHost else Host.readSpecial text

def readPortText (scheme : String) : List Char → Except UrlFault (Option Nat)
  | [] => .ok none
  | _ :: ds => readPort scheme ds

/-- What is asked of a URL behind its userinfo. -/
def behindUser (special : Bool) (scheme : String) (user : Userinfo) (hostText portText : List Char)
    (make : Host → Option Nat → Url) : Except UrlFault Url := do
  if special ∧ hostText = [] then throw .emptyHost
  let host ← if special then Host.readSpecial hostText else Host.readOther hostText
  let port ← match portText with
    | [] => pure none
    | _ :: ds => if hostText = [] then throw .emptyHost else readPort scheme ds
  if hostText = [] ∧ (user.username ≠ "" ∨ user.password.isSome) then throw .emptyHost
  return make host port

variable {scheme : String} {special : Bool} {user : Userinfo} {hostText portText : List Char}
  {make : Host → Option Nat → Url}

theorem behindUser_web : behindUser true scheme user hostText portText make =
    (readHost hostText >>= fun host => readPortText scheme portText >>= fun port => .ok (make host port)) := by
  unfold behindUser readHost
  by_cases hempty : hostText = []
  · rw [if_pos ⟨rfl, hempty⟩, if_pos hempty]
    rfl
  · have hguard : ¬ (hostText = [] ∧ (user.username ≠ "" ∨ user.password.isSome = true)) := fun h => hempty h.1
    rw [if_neg fun h => hempty h.2, if_neg hempty, if_pos rfl]
    simp only [if_neg hempty, if_neg hguard]
    cases portText <;> rfl

theorem behindUser_ok (h : behindUser special scheme user hostText portText make = .ok u) :
    ∃ host port, u = make host port := by
  simp only [behindUser, bind, Except.bind, pure, Except.pure, throw, throwThe, MonadExceptOf.throw] at h
  repeat' split at h
  all_goals first | exact ⟨_, _, (Except.ok.inj h).symm⟩ | cases h

theorem readAuthority_web (hspecial : isSpecial scheme = true) (cs : List Char) :
    readAuthority scheme cs = (readUser (authorityText cs) >>= fun user =>
      readHost (cutHost false user.2).1 >>= fun host =>
        readPortText scheme (cutHost false user.2).2 >>= fun port =>
          .ok (build scheme user.1 (some host) port (readAuthorityPath true false (pathText cs))
            (cutTail cs).2.1 (cutTail cs).2.2)) := by
  unfold readAuthority
  rw [hspecial, readUser]
  dsimp only
  rw [← authorityText, ← pathText]
  cases cutLast? '@' (authorityText cs) with
  | none => exact behindUser_web
  | some p =>
    dsimp only
    by_cases hempty : p.1 = [] ∧ p.2 = []
    · rw [if_pos ⟨hempty.1, hempty.2, .inl rfl⟩, if_pos hempty]
      rfl
    · rw [if_neg fun h => hempty ⟨h.1, h.2.1⟩, if_neg hempty]
      exact behindUser_web

theorem readUser_canonical {authority : List Char} {user : Userinfo × List Char}
    (h : readUser authority = .ok user) : user.1.Canonical := by
  unfold readUser at h
  split at h
  · cases h
    exact noUser_canonical
  · split at h
    · cases h
    · cases h
      exact readUserinfo_canonical _

theorem readAuthority_canonical {scheme : String} (hscheme : scheme = "http" ∨ scheme = "https")
    (h : readAuthority scheme cs = .ok u) : u.Canonical := by
  have hspecial : isSpecial scheme = true := by rcases hscheme with rfl | rfl <;> rfl
  rw [readAuthority_web hspecial] at h
  obtain ⟨user, huser, h⟩ := except_bind_ok.mp h
  obtain ⟨host, hhost, h⟩ := except_bind_ok.mp h
  obtain ⟨port, hport, h⟩ := except_bind_ok.mp h
  cases h
  refine build_canonical hscheme (readUser_canonical huser) ?_ ?_ (readAuthorityPath_segments _)
  · unfold readHost at hhost
    split at hhost
    · cases hhost
    · exact Host.canonical_of_readSpecial hhost
  · generalize (cutHost false user.2).2 = portText at hport
    cases portText with
    | nil =>
      cases hport
      exact fun _ hp => by cases hp
    | cons c ds => exact readPort_ok hport

theorem scheme_of_readAuthority (h : readAuthority scheme cs = .ok u) : u.scheme = scheme := by
  unfold readAuthority at h
  dsimp only at h
  have hbehind : ∀ {special user hostText portText path query fragment},
      behindUser special scheme user hostText portText
        (fun host port => build scheme user (some host) port path query fragment) = .ok u →
      u.scheme = scheme := by
    intro special user hostText portText path query fragment h
    obtain ⟨host, port, rfl⟩ := behindUser_ok h
    rfl
  split at h
  · exact hbehind h
  · split at h
    · cases h
    · exact hbehind h

theorem scheme_of_readOther (h : readOther scheme cs = .ok u) : u.scheme = scheme := by
  unfold readOther at h
  split at h
  · exact scheme_of_readAuthority h
  · cases h
    rfl
  · cases h
    rfl

theorem scheme_of_readFile (h : readFile cs = .ok u) : u.scheme = "file" := by
  simp only [readFile, bind, Except.bind, pure, Except.pure] at h
  repeat' split at h
  all_goals first | (cases h; rfl) | cases h

theorem canonical_of_read {s : String} (h : read s = .ok u) (hscheme : u.scheme = "http" ∨ u.scheme = "https") :
    u.Canonical := by
  unfold read at h
  split at h
  · cases h
  · rename_i scheme rest _
    split at h
    · rw [scheme_of_readFile h] at hscheme
      rcases hscheme with hscheme | hscheme <;> exact absurd hscheme (by decide)
    · split at h
      · rw [scheme_of_readAuthority h] at hscheme
        exact readAuthority_canonical hscheme h
      · rename_i hspecial
        rw [scheme_of_readOther h] at hscheme
        rcases hscheme with rfl | rfl <;> exact absurd rfl hspecial

end CatalogClient.Url
