import CatalogClient.Proofs.Bulk.Batching
import CatalogClient.Proofs.Bulk.Keyed
/-!
Which status line an item gets: the first one that refers to the place of its line in the request. A status line
refers to the place it numbers, or without a number to the first place at which its key was sent.
-/

namespace CatalogClient

namespace Bulk

/-- A status line refers to a place among the lines sent, counted from one. -/
inductive Refers (sent : List BulkItem) (s : StatusLine) : Nat → Prop
  | number (h : 0 < s.line) : Refers sent s s.line
  | key {key : String} {i : Nat} (h : s.line = 0)
    (hkey : s.identifier = some key ∨ s.identifier = none ∧ s.code = some key)
    (hplace : (sent.map (·.identifier))[i]? = some key)
    (hfirst : ∀ j < i, (sent.map (·.identifier))[j]? ≠ some key) : Refers sent s (i + 1)

/-- The result of the item sent at a place: the first status line that refers to it, or that there is none. -/
inductive Attributed (sent : List BulkItem) (statuses : List StatusLine) (n : Nat) (item : BulkItem) :
    BulkResult → Prop
  | told {before after : List StatusLine} {s : StatusLine} (hstatuses : statuses = before ++ s :: after)
    (hrefers : Refers sent s n) (hfirst : ∀ s' ∈ before, ¬ Refers sent s' n) :
    Attributed sent statuses n item ⟨item.identifier, s.status, s.message⟩
  | missing (hnone : ∀ s ∈ statuses, ¬ Refers sent s n) :
    Attributed sent statuses n item ⟨item.identifier, 0, some "no per-item status returned"⟩

/-- The results of a chunk from the status lines for it. An item with a body is sent at the place behind those
of the items with bodies before it. -/
structure Accounts (chunk : List BulkItem) (statuses : List StatusLine) (results : List BulkResult) : Prop where
  length : results.length = chunk.length
  sent : ∀ before item after value, chunk = before ++ item :: after → item.line? = some value →
    (lines chunk)[(lines before).length]? = some value ∧ ∃ b, results[before.length]? = some b ∧
      Attributed (Bulk.sent chunk) statuses ((lines before).length + 1) item b
  unsent : ∀ before item after, chunk = before ++ item :: after → item.line? = none →
    results[before.length]? = some (unsendable item)

variable {sent chunk : List BulkItem} {statuses : List StatusLine} {s : StatusLine} {n : Nat} {item : BulkItem}
  {b : BulkResult}

theorem key?_eq_some {key : String} :
    s.key? = some key ↔ s.identifier = some key ∨ s.identifier = none ∧ s.code = some key := by
  rw [StatusLine.key?, Option.or_eq_some_iff]

theorem refers_iff : Refers sent s n ↔ position? sent s = some n := by
  unfold position?
  split
  · rename_i hline
    constructor
    · intro h
      cases h with
      | number => rfl
      | key h => omega
    · intro h
      cases h
      exact .number hline
  · rename_i hline
    simp only [Option.bind_eq_some_iff, Option.map_eq_some_iff, key?_eq_some, findIdx?_identifier_iff]
    constructor
    · intro h
      cases h with
      | number h => exact absurd h hline
      | key _ hkey hplace hfirst => exact ⟨_, hkey, _, ⟨hplace, hfirst⟩, rfl⟩
    · rintro ⟨key, hkey, i, ⟨hplace, hfirst⟩, rfl⟩
      exact .key (Nat.eq_zero_of_not_pos hline) hkey hplace hfirst

instance : Decidable (Refers sent s n) := decidable_of_iff _ refers_iff.symm

theorem attributed_iff : Attributed sent statuses n item b ↔ b = resultOf sent (.ok statuses) n item := by
  have hsome (s : StatusLine) : statusOf? sent statuses n = some s ↔ Refers sent s n ∧
      ∃ before after, statuses = before ++ s :: after ∧ ∀ s' ∈ before, ¬ Refers sent s' n := by
    simp [statusOf?, List.find?_eq_some_iff_append, refers_iff]
  have hnone : statusOf? sent statuses n = none ↔ ∀ s ∈ statuses, ¬ Refers sent s n := by
    simp [statusOf?, List.find?_eq_none, refers_iff]
  simp only [resultOf]
  constructor
  · intro h
    cases h with
    | told hstatuses hrefers hfirst => rw [(hsome _).mpr ⟨hrefers, _, _, hstatuses, hfirst⟩]
    | missing h =>
      rw [hnone.mpr h]
      rfl
  · rintro rfl
    cases hstatus : statusOf? sent statuses n with
    | some s =>
      obtain ⟨hrefers, before, after, hstatuses, hfirst⟩ := (hsome s).mp hstatus
      exact .told hstatuses hrefers hfirst
    | none => exact .missing (hnone.mp hstatus)

theorem getElem?_resultsFrom (result : Nat → BulkItem → BulkResult) (position : Nat)
    (before : List BulkItem) (item : BulkItem) (after : List BulkItem) :
    (resultsFrom result position (before ++ item :: after))[before.length]? =
      some (if item.line?.isSome then result (position + (lines before).length) item else unsendable item) := by
  induction before generalizing position with
  | nil =>
    rw [List.nil_append, resultsFrom]
    split <;> rfl
  | cons first before ih =>
    rw [List.cons_append, resultsFrom]
    cases hline : first.line? with
    | none =>
      simpa [lines, hline] using ih position
    | some value =>
      rw [Option.isSome_some, if_pos rfl, List.length_cons, List.getElem?_cons_succ, ih (position + 1),
        lines_cons hline, List.length_cons, Nat.add_assoc, Nat.add_comm 1]

theorem accounts_chunkResults {a : Response} (h : StatusLine.readAll a.text = .ok statuses) :
    Accounts chunk statuses (chunkResults chunk (.ok a)) where
  length := length_resultsFrom _ _ _
  sent := by
    rintro before item after value rfl hline
    refine ⟨getElem?_lines hline, _, getElem?_resultsFrom _ _ before item after, attributed_iff.mpr ?_⟩
    rw [hline, Option.isSome_some, if_pos rfl, Nat.add_comm, Except.bind, h]
  unsent := by
    rintro before item after rfl hline
    rw [chunkResults, getElem?_resultsFrom, hline]
    rfl

/-- A status line that refers to one of the lines sent for a chunk. -/
def Heard (chunk : List BulkItem) (s : StatusLine) : Prop :=
  ∃ n ≤ (lines chunk).length, Refers (Bulk.sent chunk) s n

theorem heard_iff :
    Heard chunk s ↔ (position? (Bulk.sent chunk) s).any (· ≤ (lines chunk).length) = true := by
  simp only [Heard, refers_iff, Option.any_eq_true, decide_eq_true_eq]
  exact exists_congr fun n => and_comm

instance : Decidable (Heard chunk s) := decidable_of_iff _ heard_iff.symm

theorem statusOf?_filter_heard (statuses : List StatusLine) (hn : n ≤ (lines chunk).length) :
    statusOf? (Bulk.sent chunk) (statuses.filter (Heard chunk)) n = statusOf? (Bulk.sent chunk) statuses n := by
  rw [statusOf?, statusOf?, List.find?_filter]
  congr 1
  funext s
  simp only [decide_eq_true_eq, decide_eq_decide, and_iff_right_iff_imp]
  exact fun hplace => ⟨n, hn, refers_iff.mpr hplace⟩

/-- Status lines that refer to no line sent do not count. -/
theorem Accounts.filter_heard {results : List BulkResult} (h : Accounts chunk statuses results) :
    Accounts chunk (statuses.filter (Heard chunk)) results where
  length := h.length
  unsent := h.unsent
  sent before item after value hchunk hline := by
    obtain ⟨hvalue, b, hb, hattributed⟩ := h.sent before item after value hchunk hline
    refine ⟨hvalue, b, hb, attributed_iff.mpr ?_⟩
    have hplace := (List.getElem?_eq_some_iff.mp hvalue).1
    rw [resultOf, statusOf?_filter_heard statuses hplace]
    exact attributed_iff.mp hattributed

end Bulk

namespace Client

variable {σ : Type} {k : Client} {p : Peer σ} {date : UtcTime} {credential : Option Credential}
  {peer : σ} {w w' : World σ} {items : List BulkItem} {path : String} {results : List BulkResult}

/-- The results of a chunk of a bulk operation with these calls, where the task with this number carried the
lines of the chunk, if it has any. -/
structure Attributes (path : String) (calls : List CallRecord) (task : Nat) (chunk : List BulkItem)
    (results : List BulkResult) : Prop where
  unsent : Bulk.lines chunk = [] → results = chunk.map Bulk.unsendable
  sent : Bulk.lines chunk ≠ [] → ∃ x ∈ calls, x.task = task ∧ x.request = Bulk.chunkRequest path chunk ∧
    ∀ a statuses, x.answer = .ok a → StatusLine.readAll a.text = .ok statuses →
      Bulk.Accounts chunk statuses results ∧
        Bulk.Accounts chunk (statuses.filter (Bulk.Heard chunk)) results

/-- A bulk operation attributes the status lines of each chunk to its items: each item that was sent has the
result of the first status line that refers to its place, and lines that refer to no place do not count. -/
theorem statuses_attributed
    (hr : Traffic.Reaches p k.setup ⟨k.world date credential peer, []⟩ ⟨w, []⟩)
    (h : k.bulk p (.collection path) items w = (.ok results, w')) :
    ∃ calls, ∃ parts : List (List BulkResult), k.Made p w w' calls ∧ results = parts.flatten ∧
      parts.length = (Bulk.chunks k.config.bulkBatchSize items).length ∧
      ∀ (j : Nat) chunk part, (Bulk.chunks k.config.bulkBatchSize items)[j]? = some chunk →
        parts[j]? = some part → Attributes path calls (w.tasks + j) chunk part := by
  obtain ⟨answers, w₁, hanswers, hpure⟩ := Effect.bind_ok.mp h
  obtain ⟨rfl, rfl⟩ := Effect.pure_ok.mp hpure
  obtain ⟨hlen, hmade⟩ := answersTo_made hr (fun chunk _ => k.asks_chunkOrder path chunk) hanswers
  refine ⟨_, _, hmade, rfl, by rw [List.length_zipWith, hlen, Nat.min_self], ?_⟩
  intro j chunk part hchunk hpart
  obtain ⟨_, answer, hchunk', hanswer, rfl⟩ := List.getElem?_zipWith_eq_some.mp hpart
  cases hchunk.symm.trans hchunk'
  refine ⟨fun hnone => Bulk.chunkResults_unsent hnone answer, fun hlines => ?_⟩
  refine ⟨_, Bulk.mem_wanted hchunk hlines hanswer, rfl, rfl, ?_⟩
  rintro a statuses rfl hread
  have haccounts : Bulk.Accounts chunk statuses (Bulk.chunkResults chunk (.ok a)) :=
    Bulk.accounts_chunkResults hread
  exact ⟨haccounts, haccounts.filter_heard⟩

end Client

/-- Two writes with one key, one that cannot be sent, and one that the service says nothing of. -/
def fourWrites : List BulkItem :=
  [oneWrite, bodyless, oneWrite, ⟨"c", (Request.patch "families/c").withJson (.bool true)⟩]

/-- Status lines for no line sent, twice for the first, and for the second. -/
def strayStatuses : List StatusLine :=
  [.bare 9 500, ⟨0, none, some "a", 201, none⟩, .bare 1 204, ⟨2, none, none, 422, some "bad"⟩]

theorem Client.statuses_attributed_stray : ∃ results w calls, ∃ parts : List (List BulkResult),
    Client.plain.bulk (.saying (StatusLine.writeAll strayStatuses)) (.collection "families") fourWrites
        Client.plain.fresh = (.ok results, w) ∧
      results = [⟨"a", 201, none⟩, Bulk.unsendable bodyless, ⟨"a", 422, some "bad"⟩,
        Bulk.missingStatus "c"] ∧
      results = parts.flatten ∧ parts.length = 1 ∧
      Client.Attributes "families" calls Client.plain.fresh.tasks fourWrites results := by
  have hresults : (Client.plain.bulk (.saying (StatusLine.writeAll strayStatuses)) (.collection "families")
      fourWrites Client.plain.fresh).1.toOption = some [⟨"a", 201, none⟩, Bulk.unsendable bodyless,
        ⟨"a", 422, some "bad"⟩, Bulk.missingStatus "c"] := by
    decide +kernel
  rcases h : Client.plain.bulk (.saying (StatusLine.writeAll strayStatuses)) (.collection "families")
    fourWrites Client.plain.fresh with ⟨fault | results, w⟩
  · rw [h] at hresults
    cases hresults
  · rw [h] at hresults
    obtain ⟨calls, parts, -, hflat, hlength, hattributes⟩ := Client.statuses_attributed .refl h
    obtain ⟨part, rfl⟩ := List.length_eq_one_iff.mp hlength
    have hpart : results = part := by simpa using hflat
    exact ⟨results, w, calls, [part], rfl, Option.some.inj hresults, hflat, hlength,
      hpart ▸ hattributes 0 fourWrites part rfl rfl⟩

end CatalogClient
