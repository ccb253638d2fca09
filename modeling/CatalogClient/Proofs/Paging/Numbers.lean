import CatalogClient.Page
import CatalogClient.Attempt
import CatalogClient.Proofs.Bind
import CatalogClient.Proofs.Decimal.Digits
import CatalogClient.Proofs.Url.Form
/-!
Numbers that a request carries in its query, and the requests for pages that differ in them.
-/

namespace CatalogClient

/-- A number in the pairs of a query: that of the first pair with the key. -/
def numberIn? (pairs : List (String × String)) (key : String) : Option Nat :=
  ((pairs.find? (·.1 = key)).map (·.2)).bind fun v => (Decimal.readBelow Width.beyond32 v).toOption

theorem numberIn?_append {front : List (String × String)} {key : String}
    (h : ∀ pair ∈ front, pair.1 ≠ key) (back : List (String × String)) :
    numberIn? (front ++ back) key = numberIn? back key := by
  have hnone : front.find? (·.1 = key) = none := by simpa [List.find?_eq_none] using h
  rw [numberIn?, List.find?_append, hnone, Option.none_or, numberIn?]

theorem numberIn?_lt {pairs : List (String × String)} {key : String} {n : Nat}
    (h : numberIn? pairs key = some n) : n < Width.beyond32 := by
  obtain ⟨v, -, hv⟩ := Option.bind_eq_some_iff.mp h
  cases hread : Decimal.readBelow Width.beyond32 v with
  | error fault =>
    rw [hread] at hv
    cases hv
  | ok m =>
    rw [hread] at hv
    cases hv
    exact Decimal.readBelow_lt (by decide) hread

namespace Request

section Pairs

variable {key other value : String} {ps : List (String × String)}

theorem find?_setPair_self : (setPair key value ps).find? (·.1 = key) = some (key, value) := by
  induction ps with
  | nil => simp [setPair]
  | cons pair ps ih =>
    rw [setPair]
    split
    · rename_i hkey
      simp [hkey]
    · rename_i hkey
      rw [List.find?_cons_of_neg (by simpa using hkey), ih]

theorem filter_setPair_of_not {good : String × String → Bool} (h : ∀ v, good (key, v) = false) :
    (setPair key value ps).filter good = ps.filter good := by
  induction ps with
  | nil => simp [setPair, h]
  | cons pair ps ih =>
    obtain ⟨k, v⟩ := pair
    rw [setPair]
    split
    · rename_i hkey
      cases hkey
      rw [List.filter_cons_of_neg (by simp [h]), List.filter_cons_of_neg (by simp [h])]
    · rw [List.filter_cons, List.filter_cons, ih]

theorem numberIn?_setPair_self {number : Nat} (h : number < Width.beyond32) :
    numberIn? (setPair key (String.ofList (Decimal.write number)) ps) key = some number := by
  rw [numberIn?, find?_setPair_self]
  simp [Decimal.readBelow_write h, Except.toOption]

theorem numberIn?_setPair_other (h : other ≠ key) :
    numberIn? (setPair key value ps) other = numberIn? ps other := by
  have hfind : (setPair key value ps).find? (·.1 = other) = ps.find? (·.1 = other) := by
    have hfilter : (setPair key value ps).filter (·.1 = other) = ps.filter (·.1 = other) :=
      filter_setPair_of_not fun _ => by simpa using Ne.symm h
    simpa only [List.head?_filter] using congrArg List.head? hfilter
  rw [numberIn?, hfind, numberIn?]

end Pairs

variable {r : Request} {number limit : Nat}

def number? (r : Request) (key : String) : Option Nat := numberIn? r.query key

/-- The request with the numbers of a page and of its items set. -/
def turned (r : Request) (number limit : Nat) : Request :=
  (r.withQueryValue "page" (String.ofList (Decimal.write number))).withQueryValue "limit"
    (String.ofList (Decimal.write limit))

theorem number?_turned_page (h : number < Width.beyond32) :
    (r.turned number limit).number? "page" = some number := by
  change numberIn? (setPair "limit" _ (setPair "page" _ r.query)) "page" = _
  rw [numberIn?_setPair_other (by decide), numberIn?_setPair_self h]

theorem number?_turned_limit (h : limit < Width.beyond32) :
    (r.turned number limit).number? "limit" = some limit :=
  numberIn?_setPair_self h

theorem url_of_home {base home : Url} (h : ({ r with query := [] } : Request).url base = .ok home) :
    ∃ url, r.url base = .ok url ∧ url.pairs = home.pairs ++ r.query ∧
      { url with query := home.query } = home := by
  obtain ⟨own, hown, hhome⟩ := except_bind_ok.mp h
  cases hhome
  refine ⟨_, except_bind_ok.mpr ⟨own, hown, rfl⟩, ?_⟩
  split
  · rename_i hquery
    simp [hquery]
  · exact ⟨Url.pairs_withPairs own r.query, rfl⟩

end Request

end CatalogClient
