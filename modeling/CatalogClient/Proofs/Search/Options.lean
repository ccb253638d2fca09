import CatalogClient.Proofs.Json.RoundTrip
import CatalogClient.Proofs.Paging.Numbers
import CatalogClient.Resource
/-!
The page and the limit of a search are read back from what carries them: the query of a list, or the body of
a search.
-/

namespace CatalogClient

namespace Json

variable {n : Nat}

def nat32? : Json → Option Nat
  | .number (.integer n _) => if 0 ≤ n ∧ n < Width.beyond32 then some n.toNat else none
  | _ => none

theorem nat32?_ofNat (h : n < Width.beyond32) : (Json.ofNat n).nat32? = some n := by
  obtain ⟨hrange, hn⟩ := ofNat_integer (h.trans (by decide))
  rw [hn, nat32?, if_pos ⟨Int.natCast_nonneg n, Int.ofNat_lt.mpr h⟩, Int.toNat_natCast]

theorem render_ofNat (h : n < Width.beyond32) :
    (Json.ofNat n).render = String.ofList (Decimal.write n) := by
  obtain ⟨hrange, hn⟩ := ofNat_integer (h.trans (by decide))
  rw [hn]
  rfl

end Json

def Body.number? (key : String) : Body → Option Nat
  | .json value => (value.get? key).bind Json.nat32?
  | _ => none

namespace Query

/-- The page and the limit are numbers of 32 bits. -/
structure Narrow (q : Query) : Prop where
  page : ∀ n ∈ q.page, n < Width.beyond32
  limit : ∀ n ∈ q.limit, n < Width.beyond32

variable {q : Query}

theorem filter_option {β : Type} (o : Option β) (k key : String) (g : β → Json) :
    (o.map fun b => (k, g b)).toList.filter (·.1 = key) =
      if k = key then (o.map fun b => (k, g b)).toList else [] := by
  cases o <;> simp [List.filter_cons]

theorem filter_unless {c : Prop} [Decidable c] {pair : String × Json} {key : String} (h : pair.1 ≠ key) :
    (if c then [] else [pair]).filter (·.1 = key) = [] := by
  split
  · rfl
  · simp [h]

theorem filter_options_page (q : Query) :
    q.options.filter (·.1 = "page") = (q.page.map fun n => ("page", Json.ofNat n)).toList := by
  simp [options, List.filter_append, filter_option, filter_unless]

theorem filter_options_limit (q : Query) :
    q.options.filter (·.1 = "limit") = (q.limit.map fun n => ("limit", Json.ofNat n)).toList := by
  simp [options, List.filter_append, filter_option, filter_unless]

section Number

variable {key : String} {o : Option Nat}
  (hoption : q.options.filter (·.1 = key) = (o.map fun n => (key, Json.ofNat n)).toList)
  (hsearch : "search" ≠ key) (ho : ∀ n ∈ o, n < Width.beyond32)

include hoption hsearch ho

theorem numberIn?_compile {pairs : List (String × String)} (h : q.compile = .ok pairs) :
    numberIn? pairs key = o := by
  obtain ⟨c, -, hpairs⟩ := except_bind_ok.mp h
  cases hpairs
  have hfront : ∀ pair ∈ (if c.isEmpty then [] else [("search", c.render)]), pair.1 ≠ key := by
    intro pair hpair
    split at hpair
    · cases hpair
    · rwa [List.mem_singleton.mp hpair]
  have hfind : (q.options.map fun pair => (pair.1, optionText pair.2)).find? (·.1 = key) =
      o.map fun n => (key, optionText (.ofNat n)) := by
    rw [List.find?_map, ← List.head?_filter]
    change ((q.options.filter (·.1 = key)).head?).map _ = _
    rw [hoption]
    cases o <;> rfl
  refine (numberIn?_append hfront _).trans ?_
  rw [numberIn?, hfind]
  cases o with
  | none => rfl
  | some n =>
    have htext : optionText (.ofNat n) = String.ofList (Decimal.write n) := Json.render_ofNat (ho n rfl)
    simp [htext, Decimal.readBelow_write (ho n rfl), Except.toOption]

theorem number?_compileBody {body : Json} (h : q.compileBody = .ok body) :
    (Body.json body).number? key = o := by
  obtain ⟨c, -, hbody⟩ := except_bind_ok.mp h
  cases hbody
  have hfront : (if c.isEmpty then [] else [("search", Json.string c.render)]).filter (·.1 = key) = [] :=
    filter_unless hsearch
  rw [Body.number?, Json.ofMembers, Json.get?, Json.member?_sortMembers, List.filter_append, hfront,
    List.nil_append, hoption]
  cases o with
  | none => rfl
  | some n =>
    rw [Option.map_some, Option.toList_some, List.getLast?_singleton, Option.map_some, Option.bind_some]
    exact Json.nat32?_ofNat (ho n rfl)

end Number

end Query

end CatalogClient
