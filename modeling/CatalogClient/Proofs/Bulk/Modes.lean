import CatalogClient.Proofs.Bulk.Batching
import CatalogClient.Proofs.Client.Unhindered
/-!
Writes as calls of their own, and writes as lines of a collection. Where the service thinks the same of a
write either way, so do the results, but for those whose calls ran out of time.
-/

namespace CatalogClient

def StatusLine.terse (s : StatusLine) : StatusLine := { s with message := none }

namespace Bulk

variable {grade : Json → Nat} {ls : List Json} {statuses : List StatusLine} {chunk : List BulkItem}

/-- There is one status line for each line, numbered from one, with the grade of that line. -/
def Graded (grade : Json → Nat) (ls : List Json) (statuses : List StatusLine) : Prop :=
  (statuses.map fun s => (s.status, s.line)).Perm ((ls.map grade).zipIdx 1)

theorem Graded.judged (h : Graded grade ls statuses) :
    Judged (fun value => (grade value, none)) ls (statuses.map (·.terse)) := by
  have hterse := h.map fun x => (((x.1, none), x.2) : (Nat × Option String) × Nat)
  have hgrades : ls.map (fun value => (grade value, none)) =
      (ls.map grade).map fun n => ((n, none) : Nat × Option String) := by
    rw [List.map_map]
    rfl
  rw [Judged, hgrades, List.zipIdx_map]
  rw [List.map_map] at hterse ⊢
  exact hterse

theorem statusOf?_terse (sent : List BulkItem) (statuses : List StatusLine) (position : Nat) :
    statusOf? sent (statuses.map (·.terse)) position = (statusOf? sent statuses position).map (·.terse) :=
  List.find?_map

theorem Graded.statusOf? (h : Graded grade ls statuses) (sent : List BulkItem) {j : Nat} {value : Json}
    (hv : ls[j]? = some value) :
    ∃ s, Bulk.statusOf? sent statuses (1 + j) = some s ∧ s.status = grade value := by
  obtain ⟨s, hs, hpair⟩ := h.judged.statusOf? sent hv
  rw [statusOf?_terse] at hs
  obtain ⟨s', hs', rfl⟩ := Option.map_eq_some_iff.mp hs
  exact ⟨s', hs', congrArg Prod.fst hpair⟩

theorem forall₂_graded {a : Response} (ha : StatusLine.readAll a.text = .ok statuses)
    (h : Graded grade (lines chunk) statuses) (hall : ∀ item ∈ chunk, item.line?.isSome) :
    List.Forall₂ (fun item b => b.identifier = item.identifier ∧ item.line?.map grade = some b.status)
      chunk (chunkResults chunk (.ok a)) := by
  refine forall₂_resultsFrom ?_ ?_
  · rintro before item after rfl hline
    obtain ⟨value, hvalue⟩ := Option.isSome_iff_exists.mp hline
    obtain ⟨s, hs, hgrade⟩ := h.statusOf? (sent (before ++ item :: after)) (getElem?_lines hvalue)
    refine ⟨identifier_resultOf _ _ _ _, ?_⟩
    simp only [Except.bind, ha, resultOf, hs, hvalue, Option.map_some, hgrade]
  · intro item hitem hnone
    have hline := hall item hitem
    rw [hnone] at hline
    cases hline

theorem forall₂_zipWith {R : α → β → Prop} {S : α → γ → Prop} {f : α → β → γ} {as : List α} {bs : List β}
    (h : List.Forall₂ R as bs) (hf : ∀ a ∈ as, ∀ b, R a b → S a (f a b)) :
    List.Forall₂ S as (List.zipWith f as bs) := by
  induction h with
  | nil => exact .nil
  | cons hab _ ih =>
    exact .cons (hf _ List.mem_cons_self _ hab) (ih fun a ha => hf a (List.mem_cons_of_mem _ ha))

end Bulk

namespace World

variable {σ : Type}

/-- The result is that of a call with a deadline, which ran out between two states. -/
def CutOff (w w' : World σ) (deadline : Option Span) (b : BulkResult) : Prop :=
  deadline.isSome ∧ ∃ i elapsed, w.Notes w' (.expired i) ∧ b = .ofFailure b.identifier (.timeout elapsed)

end World

/-- A service that gives each write the grade of its body, as a status of its own where the write is a call,
and in a numbered status line where it is a line of a collection. -/
structure Peer.Grades {σ : Type} (p : Peer σ) (c : Setup) (grade : Json → Nat) (path : String)
    (items : List BulkItem) : Prop where
  alone : ∀ item ∈ items, ∃ url value, item.line? = some value ∧ item.request.url c.base = .ok url ∧
    ∀ authorization peer, ∃ a,
      (p.send (item.request.attempt url authorization c.timeout) peer).1.answer = .ok a ∧
        a.status = grade value
  together : ∃ url, (Request.patch path).url c.base = .ok url ∧ ∀ ls authorization peer, ls ≠ [] →
    ls <:+: Bulk.lines items → ∃ a statuses,
      (p.send ((Bulk.batchRequest path ls).attempt url authorization c.timeout) peer).1.answer = .ok a ∧
        a.status = 200 ∧ StatusLine.readAll a.text = .ok statuses ∧ Bulk.Graded grade ls statuses

namespace Client

variable {σ : Type} {k : Client} {p : Peer σ} {date : UtcTime} {credential : Option Credential}
  {peer : σ} {w w' : World σ} {items chunk : List BulkItem} {path : String} {grade : Json → Nat}

/-- The result has the key of the item and the grade of its body, unless its call ran out of time. -/
def Rated (grade : Json → Nat) (w w' : World σ) (deadline : Option Span) (item : BulkItem)
    (b : BulkResult) : Prop :=
  b.identifier = item.identifier ∧ (item.line?.map grade = some b.status ∨ w.CutOff w' deadline b)

theorem status_of_outcome {a : Response} {item : BulkItem} :
    (Bulk.itemResult item (RetryPolicy.outcome (.ok a) item.request.path)).status = a.status := by
  by_cases hok : a.isSuccess
  · rw [RetryPolicy.outcome_of_success hok]
    rfl
  · have hfailed : RetryPolicy.outcome (.ok a) item.request.path = .error (a.toFailure item.request.path) :=
      if_neg hok
    rw [hfailed]
    change ((a.toFailure item.request.path).status?).getD 0 = a.status
    rw [Response.toFailure_status]
    rfl

theorem rated_alone (hp : p.Grades k.setup grade path items) {item : BulkItem} (hitem : item ∈ items)
    {answer : Except Failure Response} (h : k.Ends p w w' item.request answer) :
    Rated grade w w' (item.request.deadline.or k.setup.deadline) item (Bulk.itemResult item answer) := by
  refine ⟨Bulk.identifier_itemResult item answer, ?_⟩
  obtain ⟨url, value, hline, hurl, hgrade⟩ := hp.alone item hitem
  cases h with
  | @answered url' authorization peer' a elapsed n resolved sent =>
    cases hurl.symm.trans resolved
    obtain ⟨b, hb, hstatus⟩ := hgrade authorization peer'
    cases hb.symm.trans sent
    rw [status_of_outcome, hline, Option.map_some, ← hstatus]
    exact .inl rfl
  | @expired i elapsed limited noted => exact .inr ⟨limited, i, elapsed, noted, rfl⟩

theorem perItem_rated (hp : p.Grades k.setup grade path items) {results : List BulkResult}
    (hr : Traffic.Reaches p k.setup ⟨k.world date credential peer, []⟩ ⟨w, []⟩)
    (hissues : p.Issues w.date) (h : k.bulk p .perItem items w = (.ok results, w')) :
    List.Forall₂ (fun item b => Rated grade w w' (item.request.deadline.or k.setup.deadline) item b)
      items results := by
  obtain ⟨answers, w₁, hanswers, hpure⟩ := Effect.bind_ok.mp h
  obtain ⟨rfl, rfl⟩ := Effect.pure_ok.mp hpure
  have hreplies : ∀ r ∈ items.map (·.request), p.Replies k.setup r := by
    intro r hmem
    obtain ⟨item, hitem, rfl⟩ := List.mem_map.mp hmem
    obtain ⟨url, value, -, hurl, hgrade⟩ := hp.alone item hitem
    refine ⟨url, hurl, fun authorization peer => ?_⟩
    obtain ⟨a, ha, -⟩ := hgrade authorization peer
    exact ⟨a, ha⟩
  obtain ⟨-, hends⟩ := answersTo_ends hr hissues hreplies hanswers
  rw [List.forall₂_map_left_iff] at hends
  exact Bulk.forall₂_zipWith hends fun item hitem answer hend => rated_alone hp hitem hend

theorem rated_chunk (hp : p.Grades k.setup grade path items) (hall : ∀ item ∈ chunk, item.line?.isSome)
    (hlines : Bulk.lines chunk ≠ []) (hbatch : Bulk.lines chunk <:+: Bulk.lines items)
    {answer : Except Failure Response} (h : k.Ends p w w' (Bulk.chunkRequest path chunk) answer) :
    List.Forall₂ (Rated grade w w' k.setup.deadline) chunk (Bulk.chunkResults chunk answer) := by
  obtain ⟨url, hurl, hgrades⟩ := hp.together
  cases h with
  | @answered url' authorization peer' a elapsed n resolved sent =>
    cases hurl.symm.trans resolved
    obtain ⟨b, statuses, hb, hstatus, hread, hgraded⟩ := hgrades _ authorization peer' hlines hbatch
    cases hb.symm.trans sent
    have hok : (a.stamped elapsed n).isSuccess := by
      change Response.isSuccessStatus a.status
      rw [hstatus]
      rfl
    rw [RetryPolicy.outcome_of_success hok]
    exact (Bulk.forall₂_graded (a := a.stamped elapsed n) hread hgraded hall).imp fun _ _ hb =>
      ⟨hb.1, .inl hb.2⟩
  | @expired i elapsed limited noted =>
    refine Bulk.forall₂_resultsFrom ?_ ?_
    · exact fun _ _ _ _ _ => ⟨rfl, .inr ⟨limited, i, elapsed, noted, rfl⟩⟩
    · intro item hitem hnone
      have hline := hall item hitem
      rw [hnone] at hline
      cases hline

theorem lines_ne_nil (hall : ∀ item ∈ chunk, item.line?.isSome) (hchunk : 1 ≤ chunk.length) :
    Bulk.lines chunk ≠ [] := by
  intro hnil
  obtain ⟨item, hitem⟩ := List.exists_mem_of_length_pos hchunk
  have hline := hall item hitem
  rw [Bulk.line?_of_unsent hnil hitem] at hline
  cases hline

theorem collection_rated (hp : p.Grades k.setup grade path items) {results : List BulkResult}
    (hr : Traffic.Reaches p k.setup ⟨k.world date credential peer, []⟩ ⟨w, []⟩)
    (hissues : p.Issues w.date) (h : k.bulk p (.collection path) items w = (.ok results, w')) :
    List.Forall₂ (Rated grade w w' k.setup.deadline) items results := by
  obtain ⟨answers, w₁, hanswers, hpure⟩ := Effect.bind_ok.mp h
  obtain ⟨rfl, rfl⟩ := Effect.pure_ok.mp hpure
  have hall : ∀ chunk ∈ Bulk.chunks k.config.bulkBatchSize items, ∀ item ∈ chunk, item.line?.isSome := by
    intro chunk hchunk item hitem
    have hmem : item ∈ (Bulk.chunks k.config.bulkBatchSize items).flatten :=
      List.mem_flatten_of_mem hchunk hitem
    rw [Bulk.flatten_chunks] at hmem
    obtain ⟨url, value, hline, -⟩ := hp.alone item hmem
    rw [hline]
    rfl
  have hlines : ∀ chunk ∈ Bulk.chunks k.config.bulkBatchSize items, Bulk.lines chunk ≠ [] :=
    fun chunk hchunk => lines_ne_nil (hall chunk hchunk) (Bulk.chunks_sizes hchunk).1
  have horders : (Bulk.chunks k.config.bulkBatchSize items).map (k.chunkOrder path) =
      ((Bulk.chunks k.config.bulkBatchSize items).map (Bulk.chunkRequest path)).map k.order := by
    rw [List.map_map]
    exact List.map_congr_left fun chunk hchunk => if_neg (hlines chunk hchunk)
  have hreplies : ∀ r ∈ (Bulk.chunks k.config.bulkBatchSize items).map (Bulk.chunkRequest path),
      p.Replies k.setup r := by
    intro r hmem
    obtain ⟨chunk, hchunk, rfl⟩ := List.mem_map.mp hmem
    obtain ⟨url, hurl, hgrades⟩ := hp.together
    refine ⟨url, hurl, fun authorization peer => ?_⟩
    obtain ⟨a, statuses, ha, -⟩ :=
      hgrades _ authorization peer (hlines chunk hchunk) (Bulk.lines_infix hchunk)
    exact ⟨a, ha⟩
  rw [horders] at hanswers
  obtain ⟨-, hends⟩ := answersTo_ends hr hissues hreplies hanswers
  rw [List.forall₂_map_left_iff] at hends
  have hrated := Bulk.forall₂_results hends.length_eq.symm
    (R := Rated grade w w₁ k.setup.deadline) <| by
      intro j chunk answer hchunk hanswer
      obtain ⟨hj, rfl⟩ := List.getElem?_eq_some_iff.mp hchunk
      obtain ⟨hj', rfl⟩ := List.getElem?_eq_some_iff.mp hanswer
      have hmem := List.getElem_mem hj
      exact rated_chunk hp (hall _ hmem) (hlines _ hmem) (Bulk.lines_infix hmem) (hends.get hj hj')
  rwa [Bulk.flatten_chunks] at hrated

theorem status_eq_of_rated {w₁ w₁' w₂ w₂' : World σ} {deadline deadline' : Option Span} {item : BulkItem}
    {b b' : BulkResult} (h : Rated grade w₁ w₁' deadline item b) (h' : Rated grade w₂ w₂' deadline' item b') :
    b.identifier = b'.identifier ∧ (b.status = b'.status ∧ b.isSuccess = b'.isSuccess ∨
      w₁.CutOff w₁' deadline b ∨ w₂.CutOff w₂' deadline' b') := by
  refine ⟨h.1.trans h'.1.symm, ?_⟩
  rcases h.2 with hgrade | hcut
  · rcases h'.2 with hgrade' | hcut'
    · have hstatus : b.status = b'.status := Option.some.inj (hgrade.symm.trans hgrade')
      exact .inl ⟨hstatus, by rw [BulkResult.isSuccess, BulkResult.isSuccess, hstatus]⟩
    · exact .inr (.inr hcut')
  · exact .inr (.inl hcut)

/-- Each write as a call of its own, or as a line of a collection: whatever the service thinks of the
writes, the results agree one by one, but for those of calls whose time ran out. -/
theorem bulk_modes_agree (hp : p.Grades k.setup grade path items)
    {date' : UtcTime} {credential' : Option Credential} {peer' : σ} {w₁ w₁' w₂ w₂' : World σ}
    {size window size' window' : Nat} {alone together : Except Fault (List BulkResult)}
    (hr₁ : Traffic.Reaches p k.setup ⟨k.world date credential peer, []⟩ ⟨w₁, []⟩)
    (hr₂ : Traffic.Reaches p k.setup ⟨k.world date' credential' peer', []⟩ ⟨w₂, []⟩)
    (hissues₁ : p.Issues w₁.date) (hissues₂ : p.Issues w₂.date)
    (h₁ : (k.batched size window).bulk p .perItem items w₁ = (alone, w₁'))
    (h₂ : (k.batched size' window').bulk p (.collection path) items w₂ = (together, w₂')) :
    (∃ fault, alone = .error fault ∧ World.Overrun p k.setup k.quota w₁ w₁') ∨
      (∃ fault, together = .error fault ∧ World.Overrun p k.setup k.quota w₂ w₂') ∨
      ∃ bs bs', alone = .ok bs ∧ together = .ok bs' ∧ bs.length = items.length ∧
        bs'.length = items.length ∧ ∀ (i : Nat) item b b', items[i]? = some item → bs[i]? = some b →
          bs'[i]? = some b' → b.identifier = b'.identifier ∧
            (b.status = b'.status ∧ b.isSuccess = b'.isSuccess ∨
              w₁.CutOff w₁' (item.request.deadline.or k.setup.deadline) b ∨
              w₂.CutOff w₂' k.setup.deadline b') := by
  cases alone with
  | error fault => exact .inl ⟨fault, rfl, bulk_overrun (k := k.batched size window) hr₁ h₁⟩
  | ok bs =>
    cases together with
    | error fault => exact .inr (.inl ⟨fault, rfl, bulk_overrun (k := k.batched size' window') hr₂ h₂⟩)
    | ok bs' =>
      have hrated := perItem_rated (k := k.batched size window) hp hr₁ hissues₁ h₁
      have hrated' := collection_rated (k := k.batched size' window') hp hr₂ hissues₂ h₂
      refine .inr (.inr ⟨bs, bs', rfl, rfl, hrated.length_eq.symm, hrated'.length_eq.symm, ?_⟩)
      intro i item b b' hitem hb hb'
      obtain ⟨hi, rfl⟩ := List.getElem?_eq_some_iff.mp hitem
      obtain ⟨hbi, rfl⟩ := List.getElem?_eq_some_iff.mp hb
      obtain ⟨hbi', rfl⟩ := List.getElem?_eq_some_iff.mp hb'
      exact status_eq_of_rated (hrated.get hi hbi) (hrated'.get hi hbi')

end Client

/-- An answer to one write in a collection: there is too much to do. -/
def Response.putOff : Response := ⟨200, [], Text.Utf8.encode "\x7b\"line\":1,\"status_code\":429\x7d", .zero, 1⟩

def Peer.busy : Peer Unit where
  send a _ := (⟨.zero, .ok (match a.body with
    | .lines _ => .putOff
    | _ => ⟨429, [("retry-after", "5")], [], .zero, 1⟩)⟩, ())
  exchange _ _ := (⟨.zero, .ok ⟨"token", 3600, none, none, none⟩⟩, ())
  draw _ := (0, ())

theorem Peer.busy_issues : Peer.busy.Issues (.ofNanos 0) := fun _ _ => ⟨_, _, rfl, rfl⟩

theorem Peer.busy_grades (c : Setup) (h : c.base = Client.plain.setup.base) :
    Peer.busy.Grades c (fun _ => 429) "families" [oneWrite] where
  alone item hitem := by
    obtain ⟨url, hurl⟩ : ∃ url, oneWrite.request.url Client.plain.setup.base = .ok url := ⟨_, rfl⟩
    cases List.mem_singleton.mp hitem
    refine ⟨url, .null, rfl, h ▸ hurl, fun _ _ => ⟨⟨429, [("retry-after", "5")], [], .zero, 1⟩, rfl, rfl⟩⟩
  together := by
    obtain ⟨url, hurl⟩ : ∃ url, (Request.patch "families").url Client.plain.setup.base = .ok url :=
      ⟨_, rfl⟩
    refine ⟨url, h ▸ hurl, ?_⟩
    intro ls authorization peer hne hbatch
    obtain rfl : ls = [.null] := by
      have hsub : ls.Sublist [.null] := hbatch.sublist
      simpa [List.sublist_cons_iff, hne] using hsub
    have hread : StatusLine.readAll Response.putOff.text = .ok [.bare 1 429] := by
      decide +kernel
    exact ⟨.putOff, _, rfl, rfl, hread, .refl _⟩

theorem Client.bulk_modes_agree_busy : ∃ b b',
    ((Client.plain.batched 1 1).bulk .busy .perItem [oneWrite] Client.plain.fresh).1 = .ok [b] ∧
      ((Client.plain.batched 2 0).bulk .busy (.collection "families") [oneWrite]
        Client.plain.fresh).1 = .ok [b'] ∧
      b.status = b'.status := by
  have hok : ((Client.plain.batched 1 1).bulk .busy .perItem [oneWrite] Client.plain.fresh).1.isOk := by
    decide +kernel
  have hok' : ((Client.plain.batched 2 0).bulk .busy (.collection "families") [oneWrite]
      Client.plain.fresh).1.isOk := by
    decide +kernel
  rcases h : (Client.plain.batched 1 1).bulk .busy .perItem [oneWrite] Client.plain.fresh with ⟨alone, w⟩
  rcases h' : (Client.plain.batched 2 0).bulk .busy (.collection "families") [oneWrite]
    Client.plain.fresh with ⟨together, w'⟩
  rw [h] at hok
  rw [h'] at hok'
  rcases Client.bulk_modes_agree (Peer.busy_grades _ rfl) .refl .refl Peer.busy_issues Peer.busy_issues
    h h' with ⟨fault, rfl, -⟩ | ⟨fault, rfl, -⟩ | ⟨bs, bs', rfl, rfl, hlen, hlen', hagree⟩
  · cases hok
  · cases hok'
  · obtain ⟨b, rfl⟩ := List.length_eq_one_iff.mp hlen
    obtain ⟨b', rfl⟩ := List.length_eq_one_iff.mp hlen'
    refine ⟨b, b', rfl, rfl, ?_⟩
    rcases (hagree 0 oneWrite b b' rfl rfl rfl).2 with ⟨hstatus, -⟩ | ⟨hdeadline, -⟩ | ⟨hdeadline, -⟩
    · exact hstatus
    · cases hdeadline
    · cases hdeadline

def Client.brief : Client :=
  { Client.plain with setup := { Client.plain.setup with deadline := some (.ofSeconds 1) } }

/-- The write that is a call of its own is to wait five seconds, and has one; the collection is answered. -/
theorem Client.modes_differ : Peer.busy.Grades Client.brief.setup (fun _ => 429) "families" [oneWrite] ∧
    Peer.busy.Issues (.ofNanos 0) ∧
    (Client.brief.bulk .busy .perItem [oneWrite] Client.brief.fresh).1.toOption =
      some [.ofFailure "a" (.timeout (.ofSeconds 1))] ∧
    (Client.brief.bulk .busy (.collection "families") [oneWrite] Client.brief.fresh).1.toOption =
      some [⟨"a", 429, none⟩] := by
  refine ⟨Peer.busy_grades _ rfl, Peer.busy_issues, ?_, ?_⟩
  · decide +kernel
  · decide +kernel

end CatalogClient
