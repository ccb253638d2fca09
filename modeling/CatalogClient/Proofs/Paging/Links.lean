import CatalogClient.Proofs.Url.Form
import CatalogClient.Request
/-!
Requests that follow links. A link takes the place of the path and the query, and of what a JSON object in the
body says of the page and of the keys of its query; along a chain of links every one of them leaves its mark
on the body.
-/

namespace CatalogClient

namespace Request

/-- A link names a key: the query behind its first question mark has a pair with the key. -/
def Names (link key : String) : Prop :=
  ∃ front query value, link.toList = front ++ '?' :: query ∧ '?' ∉ front ∧
    (key, value) ∈ Url.Form.decodePairs query

/-- A key stays in a body behind these links. -/
def Stays (links : List String) (key : String) : Prop :=
  key ≠ "page" ∧ key ≠ "search_after" ∧ ∀ link ∈ links, ¬ Names link key

variable {link last key : String} {links links' : List String} {ms : List (String × Json)}

theorem mem_linkedKeys : key ∈ linkedKeys link ↔ Names link key := by
  unfold linkedKeys
  split
  · rename_i hcut
    refine iff_of_false List.not_mem_nil ?_
    rintro ⟨front, query, value, hlink, hfront, -⟩
    rw [hlink, Text.cut?_append hfront] at hcut
    cases hcut
  · rename_i front query hcut
    obtain ⟨hlink, hfront⟩ := Text.cut?_eq_some_iff.mp hcut
    constructor
    · intro h
      obtain ⟨⟨_, value⟩, hpair, rfl⟩ := List.mem_map.mp h
      exact ⟨front, query, value, hlink, hfront, hpair⟩
    · rintro ⟨front', query', value, hlink', hfront', hpair⟩
      rw [hlink', Text.cut?_append hfront'] at hcut
      cases hcut
      exact List.mem_map_of_mem hpair

instance : Decidable (Names link key) := decidable_of_iff _ mem_linkedKeys

instance : Decidable (Stays links key) := inferInstanceAs (Decidable (_ ∧ _ ∧ _))

theorem stays_append : Stays (links ++ links') key ↔ Stays links key ∧ Stays links' key := by
  constructor
  · rintro ⟨hpage, hafter, hlinks⟩
    obtain ⟨hfirst, hrest⟩ := List.forall_mem_append.mp hlinks
    exact ⟨⟨hpage, hafter, hfirst⟩, hpage, hafter, hrest⟩
  · rintro ⟨⟨hpage, hafter, hfirst⟩, -, -, hrest⟩
    exact ⟨hpage, hafter, List.forall_mem_append.mpr ⟨hfirst, hrest⟩⟩

/-- What is left of a body behind these links. -/
inductive Leaves (links : List String) : Body → Body → Prop
  | object {ms : List (String × Json)} :
    Leaves links (.json (.object ms)) (.json (.object (ms.filter fun m => Stays links m.1)))
  | other {b : Body} (h : ∀ ms, b ≠ .json (.object ms)) : Leaves links b b

theorem leaves_bodyBehind (link : String) (b : Body) : Leaves [link] b (bodyBehind link b) := by
  unfold bodyBehind
  split
  · rename_i ms
    have hsame : (ms.filter fun m => Stays [link] m.1) =
        ms.filter fun m => ! positionKeys.contains m.1 && ! (linkedKeys link).contains m.1 := by
      refine List.filter_congr fun m _ => Bool.eq_iff_iff.mpr ?_
      simp [positionKeys, Stays, mem_linkedKeys, and_assoc]
    have hobject : Leaves [link] (.json (.object ms)) (.json (.object (ms.filter fun m => Stays [link] m.1))) :=
      .object
    rw [hsame] at hobject
    exact hobject
  · rename_i h
    exact .other h

theorem Leaves.trans {b b' b'' : Body} (h : Leaves links b b') (h' : Leaves links' b' b'') :
    Leaves (links ++ links') b b'' := by
  cases h with
  | object =>
    rename_i ms
    cases h' with
    | object =>
      have hsame : ((ms.filter fun m => Stays links m.1).filter fun m => Stays links' m.1) =
          ms.filter fun m => Stays (links ++ links') m.1 := by
        rw [List.filter_filter]
        refine List.filter_congr fun m _ => Bool.eq_iff_iff.mpr ?_
        simp only [Bool.and_eq_true, decide_eq_true_eq, stays_append]
        exact and_comm
      rw [hsame]
      exact .object
    | other h' => exact absurd rfl (h' _)
  | other h =>
    cases h' with
    | object => exact absurd rfl (h _)
    | other => exact .other h

/-- Two requests of which one follows the other along these links. -/
structure Follows (links : List String) (last : String) (r next : Request) : Prop where
  path : next.path = last
  query : next.query = []
  method : next.method = r.method
  headers : next.headers = r.headers
  retryWrites : next.retryWrites = r.retryWrites
  deadline : next.deadline = r.deadline
  body : Leaves links r.body next.body

theorem follows_follow (r : Request) (link : String) : Follows [link] link r (r.follow link) :=
  ⟨rfl, rfl, rfl, rfl, rfl, rfl, leaves_bodyBehind link r.body⟩

theorem Follows.trans {middle : String} {r r' r'' : Request} (h : Follows links middle r r')
    (h' : Follows links' last r' r'') : Follows (links ++ links') last r r'' where
  path := h'.path
  query := h'.query
  method := h'.method.trans h.method
  headers := h'.headers.trans h.headers
  retryWrites := h'.retryWrites.trans h.retryWrites
  deadline := h'.deadline.trans h.deadline
  body := h.body.trans h'.body

theorem follows_foldl (r : Request) (links : List String) (last : String) :
    Follows (links ++ [last]) last r ((links ++ [last]).foldl follow r) := by
  induction links generalizing r with
  | nil => exact follows_follow r last
  | cons link links ih => exact (follows_follow r link).trans (ih (r.follow link))

theorem Leaves.stays {b b' : Body} (h : Leaves links b b') (hobject : b' = .json (.object ms))
    {m : String × Json} (hm : m ∈ ms) : Stays links m.1 := by
  cases h with
  | object =>
    cases hobject
    exact of_decide_eq_true (List.mem_filter.mp hm).2
  | other h => exact absurd hobject (h ms)

theorem Leaves.bodyBehind_eq {b b' : Body} (h : Leaves links b b') (hlast : last ∈ links) :
    bodyBehind last b' = b' := by
  have hstep := leaves_bodyBehind last b'
  generalize bodyBehind last b' = b'' at hstep
  cases hstep with
  | object =>
    refine congrArg (Body.json ∘ Json.object) (List.filter_eq_self.mpr fun m hm => decide_eq_true ?_)
    obtain ⟨hpage, hafter, hlinks⟩ := h.stays rfl hm
    exact ⟨hpage, hafter, List.forall_mem_singleton.mpr (hlinks last hlast)⟩
  | other => rfl

theorem Follows.follow_eq {r next : Request} (h : Follows links last r next) (hlast : last ∈ links) :
    next.follow last = next := by
  rw [follow, h.body.bodyBehind_eq hlast, ← h.query]
  cases h.path
  rfl

/-- A request along a chain of links goes to the last of them. Its body has lost its position and every key
that a link of the chain names, the last one among them, so that to follow that link again changes nothing. -/
theorem follow_chain (r : Request) (links : List String) (last : String) :
    Follows (links ++ [last]) last r ((links ++ [last]).foldl follow r) ∧
      (∀ ms, ((links ++ [last]).foldl follow r).body = .json (.object ms) →
        ∀ m ∈ ms, ¬ Names last m.1) ∧
      ((links ++ [last]).foldl follow r).follow last = (links ++ [last]).foldl follow r := by
  have hfollows := follows_foldl r links last
  have hlast : last ∈ links ++ [last] := List.mem_append_right _ List.mem_cons_self
  refine ⟨hfollows, fun ms hms m hm => ?_, hfollows.follow_eq hlast⟩
  obtain ⟨-, -, hlinks⟩ := hfollows.body.stays hms hm
  exact hlinks last hlast

theorem follow_chain_two :
    let r := (Request.post "/products/search").withJson (.object
      [("limit", .bool true), ("page", .null), ("search", .null), ("with_count", .bool true)])
    let next := (["/products/search?limit=25&&li+mit", "/products/search?page=3&with%5Fcount=true"]).foldl follow r
    next.body = .json (.object [("search", .null)]) ∧ (∀ m ∈ [("search", Json.null)],
      ¬ Names "/products/search?page=3&with%5Fcount=true" m.1) ∧
      next.follow "/products/search?page=3&with%5Fcount=true" = next := by
  intro r next
  have hbody : next.body = .json (.object [("search", .null)]) := by
    decide +kernel
  obtain ⟨-, hnone, hagain⟩ := follow_chain r ["/products/search?limit=25&&li+mit"]
    "/products/search?page=3&with%5Fcount=true"
  exact ⟨hbody, hnone _ hbody, hagain⟩

end Request

end CatalogClient
