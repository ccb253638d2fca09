import CatalogClient.Proofs.Bulk.Order
import CatalogClient.Proofs.Client.Lockstep
/-!
Services that number their status lines, and services that name the key of the item in them instead. Where
no key comes twice in a batch, it makes no difference to the results which of them answers.
-/

namespace CatalogClient

def StatusLine.unnumbered (s : StatusLine) : StatusLine := { s with line := 0 }

namespace Bulk

variable {sent : List BulkItem} {statuses : List StatusLine} {chunk : List BulkItem}

/-- There is one status line for each item, in their order, with its number and its key. -/
structure Marked (sent : List BulkItem) (statuses : List StatusLine) : Prop where
  lines : statuses.map (·.line) = List.range' 1 sent.length
  keys : statuses.map (·.key?) = sent.map (some ·.identifier)

theorem Marked.length_eq (h : Marked sent statuses) : statuses.length = sent.length := by
  simpa using congrArg List.length h.lines

theorem Marked.line (h : Marked sent statuses) {i : Nat} {s : StatusLine} (hs : statuses[i]? = some s) :
    s.line = 1 + i := by
  have hi : i < sent.length := h.length_eq ▸ (List.getElem?_eq_some_iff.mp hs).1
  have hline := congrArg (·[i]?) h.lines
  simp only [List.getElem?_map, hs, Option.map_some, List.getElem?_range' hi, Nat.one_mul] at hline
  exact Option.some.inj hline

theorem Marked.key (h : Marked sent statuses) {i : Nat} {s : StatusLine} (hs : statuses[i]? = some s) :
    ∃ item, sent[i]? = some item ∧ s.key? = some item.identifier := by
  have hkey := congrArg (·[i]?) h.keys
  simp only [List.getElem?_map, hs, Option.map_some] at hkey
  obtain ⟨item, hitem, hid⟩ := Option.map_eq_some_iff.mp hkey.symm
  exact ⟨item, hitem, hid.symm⟩

theorem position?_numbered (h : Marked sent statuses) {i : Nat} {s : StatusLine}
    (hs : statuses[i]? = some s) : position? sent s = some (1 + i) := by
  rw [position?_of_line sent (h.line hs ▸ Nat.le_add_right _ _), h.line hs]

theorem findIdx?_identifier (hd : (sent.map (·.identifier)).Nodup) {i : Nat} {item : BulkItem}
    (hi : sent[i]? = some item) : sent.findIdx? (·.identifier = item.identifier) = some i := by
  have hplace : (sent.map (·.identifier))[i]? = some item.identifier := by
    rw [List.getElem?_map, hi]
    rfl
  refine findIdx?_identifier_iff.mpr ⟨hplace, fun j hj hsame => Nat.ne_of_lt hj ?_⟩
  have hlt := Nat.lt_trans hj (List.getElem?_eq_some_iff.mp hplace).1
  exact (List.getElem?_inj hlt hd).mp (hsame.trans hplace.symm)

theorem position?_unnumbered (h : Marked sent statuses) (hd : (sent.map (·.identifier)).Nodup)
    {i : Nat} {s : StatusLine} (hs : statuses[i]? = some s) :
    position? sent s.unnumbered = some (1 + i) := by
  obtain ⟨item, hitem, hkey⟩ := h.key hs
  have hline : ¬ 0 < s.unnumbered.line := Nat.lt_irrefl 0
  have hkey' : s.unnumbered.key? = some item.identifier := hkey
  rw [position?, if_neg hline, hkey', Option.bind_some, findIdx?_identifier hd hitem,
    Option.map_some, Nat.add_comm]

theorem statusOf?_placed {f : StatusLine → StatusLine}
    (hf : ∀ (i : Nat) s, statuses[i]? = some s → position? sent (f s) = some (1 + i)) {j : Nat}
    {s : StatusLine} (hs : statuses[j]? = some s) :
    statusOf? sent (statuses.map f) (1 + j) = some (f s) := by
  obtain ⟨hj, hget⟩ := List.getElem?_eq_some_iff.mp hs
  refine List.find?_eq_some_iff_getElem.mpr ⟨by simp [hf j s hs], j, by simpa using hj, by simp [hget], ?_⟩
  intro i hi
  have hother := hf i statuses[i] (List.getElem?_eq_getElem (Nat.lt_trans hi hj))
  simp only [List.getElem_map, hother]
  simp only [Option.some.injEq, Bool.not_eq_eq_eq_not, Bool.not_true, decide_eq_false_iff_not]
  omega

/-- What the status lines tell of an item by its key. -/
def Told (statuses : List StatusLine) (item : BulkItem) (b : BulkResult) : Prop :=
  if item.line?.isSome then
    ∃ s ∈ statuses, s.key? = some item.identifier ∧ b = ⟨item.identifier, s.status, s.message⟩
  else b = unsendable item

theorem Told.unique (h : (statuses.map (·.key?)).Nodup) {item : BulkItem} {b b' : BulkResult}
    (hb : Told statuses item b) (hb' : Told statuses item b') : b = b' := by
  unfold Told at hb hb'
  split at hb
  · rename_i hline
    rw [if_pos hline] at hb'
    obtain ⟨s, hs, hkey, rfl⟩ := hb
    obtain ⟨s', hs', hkey', rfl⟩ := hb'
    cases List.inj_on_of_nodup_map h hs hs' (hkey.trans hkey'.symm)
    rfl
  · rename_i hline
    rw [if_neg hline] at hb'
    rw [hb, hb']

theorem told_unnumbered {item : BulkItem} {b : BulkResult} :
    Told (statuses.map (·.unnumbered)) item b ↔ Told statuses item b := by
  simp only [Told, List.mem_map, exists_exists_and_eq_and]
  rfl

theorem length_lines (chunk : List BulkItem) : (lines chunk).length = (Bulk.sent chunk).length := by
  induction chunk with
  | nil => rfl
  | cons item chunk ih =>
    cases hline : item.line? with
    | none => simpa [lines, Bulk.sent, hline] using ih
    | some value => simpa [lines, Bulk.sent, hline] using ih

theorem getElem?_sent {before after : List BulkItem} {item : BulkItem} (h : item.line?.isSome) :
    (Bulk.sent (before ++ item :: after))[(lines before).length]? = some item := by
  rw [length_lines, Bulk.sent, List.filter_append, List.filter_cons, if_pos h, Bulk.sent,
    List.getElem?_append_right (Nat.le_refl _), Nat.sub_self]
  rfl

theorem forall₂_told {f : StatusLine → StatusLine} {a : Response}
    (hm : Marked (Bulk.sent chunk) statuses)
    (hf : ∀ (i : Nat) s, statuses[i]? = some s → position? (Bulk.sent chunk) (f s) = some (1 + i))
    (hkeys : ∀ s, (f s).key? = s.key?) (ha : StatusLine.readAll a.text = .ok (statuses.map f)) :
    List.Forall₂ (Told (statuses.map f)) chunk (chunkResults chunk (.ok a)) := by
  refine forall₂_resultsFrom ?_ fun item _ hnone => by simp [Told, hnone]
  rintro before item after rfl hline
  have hitem : (Bulk.sent (before ++ item :: after))[(lines before).length]? = some item :=
    getElem?_sent hline
  obtain ⟨s, hs⟩ : ∃ s, statuses[(lines before).length]? = some s := by
    refine ⟨_, List.getElem?_eq_getElem ?_⟩
    rw [hm.length_eq]
    exact (List.getElem?_eq_some_iff.mp hitem).1
  obtain ⟨item', hitem', hkey⟩ := hm.key hs
  cases hitem.symm.trans hitem'
  rw [Told, if_pos hline]
  refine ⟨f s, List.mem_map_of_mem (List.mem_of_getElem? hs), (hkeys s).trans hkey, ?_⟩
  simp only [Except.bind, ha, resultOf, statusOf?_placed hf hs]

theorem nodup_keys (h : Marked sent statuses) (hd : (sent.map (·.identifier)).Nodup) :
    (statuses.map (·.key?)).Nodup := by
  have hsome := hd.map (Option.some_injective String)
  rw [List.map_map] at hsome
  rw [h.keys]
  exact hsome

/-- The second body has the status lines of the first, without their numbers. -/
def Unnumbers (body body' : List UInt8) : Prop :=
  ∃ statuses, StatusLine.readAll (Text.Utf8.decodeLossy body) = .ok statuses ∧
    StatusLine.readAll (Text.Utf8.decodeLossy body') = .ok (statuses.map (·.unnumbered))

/-- The answer is a failure, or it marks the items of the chunk. -/
def Marks (chunk : List BulkItem) (answer : Except Failure Response) : Prop :=
  ∀ a, answer = .ok a → ∃ statuses, Marked (Bulk.sent chunk) statuses ∧
    StatusLine.readAll a.text = .ok statuses

variable {answer answer' : Except Failure Response}

theorem forall₂_numbered {a : Response} (hm : Marked (Bulk.sent chunk) statuses)
    (ha : StatusLine.readAll a.text = .ok statuses) :
    List.Forall₂ (Told statuses) chunk (chunkResults chunk (.ok a)) := by
  rw [← List.map_id statuses] at ha ⊢
  exact forall₂_told hm (fun _ _ => position?_numbered hm) (fun _ => rfl) ha

theorem forall₂_same (hm : Marks chunk answer) (hd : ((Bulk.sent chunk).map (·.identifier)).Nodup)
    {a : Response} (h : SameAnswer Unnumbers answer (.ok a)) :
    ∃ statuses, StatusLine.readAll a.text = .ok statuses ∧
      List.Forall₂ (Told statuses) chunk (chunkResults chunk (.ok a)) := by
  cases h with
  | same =>
    obtain ⟨statuses, hmarked, hread⟩ := hm a rfl
    exact ⟨statuses, hread, forall₂_numbered hmarked hread⟩
  | @body a₀ body ha hbody =>
    obtain ⟨statuses, hmarked, hread⟩ := hm a₀ rfl
    obtain ⟨statuses', hread₀, hread'⟩ := hbody
    cases hread.symm.trans hread₀
    exact ⟨_, hread', forall₂_told hmarked (fun _ _ => position?_unnumbered hmarked hd)
      (fun _ => rfl) hread'⟩

theorem chunkResults_same (hm : Marks chunk answer)
    (hd : ((Bulk.sent chunk).map (·.identifier)).Nodup) (h : SameAnswer Unnumbers answer answer') :
    chunkResults chunk answer' = chunkResults chunk answer := by
  cases h with
  | same => rfl
  | @body a body ha hbody =>
    obtain ⟨statuses, hmarked, hread⟩ := hm a rfl
    obtain ⟨statuses', hread', htold⟩ := forall₂_same hm hd (.body ha hbody)
    obtain ⟨statuses₀, hread₀, hunnumbered⟩ := hbody
    cases hread.symm.trans hread₀
    cases hread'.symm.trans hunnumbered
    -- No two lines have one key, so that both services tell one thing of each item.
    have hunique : Relator.RightUnique (Told statuses) := fun _ _ _ =>
      Told.unique (nodup_keys hmarked hd)
    exact List.right_unique_forall₂' hunique (htold.imp fun _ _ => told_unnumbered.mp)
      (forall₂_numbered hmarked hread)

end Bulk

/-- The second service answers the requests of a bulk operation like the first, or without numbers. -/
structure Peer.Unnumbers {σ : Type} (p p' : Peer σ) (k : Client) (path : String)
    (items : List BulkItem) : Prop where
  exchange : p'.exchange = p.exchange
  draw : p'.draw = p.draw
  send : ∀ chunk ∈ Bulk.chunks k.config.bulkBatchSize items, Bulk.lines chunk ≠ [] →
    ∀ url authorization peer, SameReply Bulk.Unnumbers
      (p.send ((Bulk.chunkRequest path chunk).attempt url authorization k.setup.timeout) peer)
      (p'.send ((Bulk.chunkRequest path chunk).attempt url authorization k.setup.timeout) peer)

/-- What an answer tells of an item: the status behind its key, or the failure of the call. -/
inductive CallRecord.Tells (x : CallRecord) (item : BulkItem) (b : BulkResult) : Prop
  | status {a : Response} {statuses : List StatusLine} {s : StatusLine} (ha : x.answer = .ok a)
    (hread : StatusLine.readAll a.text = .ok statuses) (hs : s ∈ statuses)
    (hkey : s.key? = some item.identifier) (hb : b = ⟨item.identifier, s.status, s.message⟩)
  | failure {f : Failure} (ha : x.answer = .error f) (hb : b = .ofFailure item.identifier f)

namespace Client

variable {σ : Type} {k : Client} {p p' : Peer σ} {date : UtcTime} {credential : Option Credential}
  {peer : σ} {w w' : World σ} {items chunk : List BulkItem} {path : String}
  {answer answer' : Except Failure Response}

def chunkOrders (k : Client) (path : String) (items : List BulkItem) : List Order :=
  (Bulk.chunks k.config.bulkBatchSize items).map (k.chunkOrder path)

/-- Each answer that a bulk operation gets is a failure, or it marks the items of its chunk. -/
def Marked (k : Client) (p : Peer σ) (path : String) (items : List BulkItem) (w : World σ) : Prop :=
  ∀ answers, (k.answersTo p (max k.config.bulkConcurrency 1) (k.chunkOrders path items) w).1 =
      .ok answers →
    ∀ (j : Nat) chunk answer, (Bulk.chunks k.config.bulkBatchSize items)[j]? = some chunk →
      Bulk.lines chunk ≠ [] → answers[j]? = some answer → Bulk.Marks chunk answer

/-- It is enough that the service marks the items whenever it is asked. -/
theorem marked_of_sends
    (hp : ∀ chunk ∈ Bulk.chunks k.config.bulkBatchSize items, Bulk.lines chunk ≠ [] →
      ∀ url authorization peer, Bulk.Marks chunk (p.send ((Bulk.chunkRequest path chunk).attempt url
        authorization k.setup.timeout) peer).1.answer)
    (hr : Traffic.Reaches p k.setup ⟨k.world date credential peer, []⟩ ⟨w, []⟩) :
    k.Marked p path items w := by
  intro answers hanswers j chunk answer hchunk hlines hanswer a ha
  cases ha
  obtain ⟨ts, -, -, -, htask⟩ := answersTo_tried hr
    (fun chunk _ => (k.chunkOrder_forCall path chunk).isCall) (Prod.ext hanswers rfl)
  obtain ⟨t, -, answer, ha, -, hsettles, htried, hanswering⟩ := htask j chunk hchunk
  cases hanswer.symm.trans ha
  obtain ⟨url, authorization, peer', b, elapsed, n, hb, -, rfl⟩ :=
    answer_of_chunk hsettles htried hanswering
  exact hp chunk (List.mem_of_getElem? hchunk) hlines url authorization peer' b hb

theorem bulk_collection (k : Client) (p : Peer σ) (path : String) (items : List BulkItem)
    (w : World σ) : (k.bulk p (.collection path) items w).1 =
      (k.answersTo p (max k.config.bulkConcurrency 1) (k.chunkOrders path items) w).1.map fun answers =>
        (List.zipWith Bulk.chunkResults (Bulk.chunks k.config.bulkBatchSize items) answers).flatten := by
  change ((k.answersTo p (max k.config.bulkConcurrency 1) (k.chunkOrders path items) >>= fun answers =>
    pure (List.zipWith Bulk.chunkResults (Bulk.chunks k.config.bulkBatchSize items) answers).flatten) w).1
      = _
  rw [Effect.bind_apply]
  rcases k.answersTo p (max k.config.bulkConcurrency 1) (k.chunkOrders path items) w with
    ⟨fault | answers, w₁⟩
  · rfl
  · rfl

def ChunkRequest (k : Client) (path : String) (items : List BulkItem) (r : Request) : Prop :=
  ∃ chunk ∈ Bulk.chunks k.config.bulkBatchSize items, Bulk.lines chunk ≠ [] ∧
    r = Bulk.chunkRequest path chunk

theorem counts_chunkOrders {o : Order} (h : o ∈ k.chunkOrders path items) :
    o.goal.Counts (k.ChunkRequest path items) := by
  obtain ⟨chunk, hchunk, rfl⟩ := List.mem_map.mp h
  intro r url hg
  refine ⟨chunk, hchunk, fun hlines => ?_, request_of_chunkOrder hg⟩
  rw [chunkOrder, if_pos hlines] at hg
  cases hg

theorem twin_of_unnumbers (hp : p.Unnumbers p' k path items) :
    p.Twin p'.send k.setup (k.ChunkRequest path items) fun _ => Bulk.Unnumbers := by
  rintro r ⟨chunk, hchunk, hlines, rfl⟩
  exact hp.send chunk hchunk hlines

theorem answersTo_same (hp : p.Unnumbers p' k path items) (hw : w.Idle) (window : Nat) :
    (∃ fault, (k.answersTo p window (k.chunkOrders path items) w).1 = .error fault ∧
        (k.answersTo p' window (k.chunkOrders path items) w).1 = .error fault) ∨
      ∃ answers answers', (k.answersTo p window (k.chunkOrders path items) w).1 = .ok answers ∧
        (k.answersTo p' window (k.chunkOrders path items) w).1 = .ok answers' ∧
        answers'.length = answers.length ∧ ∀ (j : Nat) chunk answer answer',
          (Bulk.chunks k.config.bulkBatchSize items)[j]? = some chunk → answers[j]? = some answer →
            answers'[j]? = some answer' → SameAnswer Bulk.Unnumbers answer answer' := by
  have hcalls : ∀ o ∈ k.chunkOrders path items, o.IsCall := by
    intro o ho
    obtain ⟨chunk, -, rfl⟩ := List.mem_map.mp ho
    exact (k.chunkOrder_forCall path chunk).isCall
  rw [← Peer.withSend_eq hp.exchange hp.draw]
  rcases answersTo_alike (twin_of_unnumbers hp) hw window (fun _ => counts_chunkOrders) hcalls with
    hfault | ⟨answers, answers', ha, ha', hlen, halike⟩
  · exact .inl hfault
  · refine .inr ⟨answers, answers', ha, ha', hlen, ?_⟩
    intro j chunk answer answer' hchunk hanswer hanswer'
    rcases halike j (k.chunkOrder path chunk) answer answer'
      (by rw [chunkOrders, List.getElem?_map, hchunk, Option.map_some]) hanswer hanswer' with
      rfl | ⟨r, url, -, hsame⟩
    · exact .same _
    · exact hsame

theorem forall₂_tells {x : CallRecord} (hm : Bulk.Marks chunk answer)
    (hd : ((Bulk.sent chunk).map (·.identifier)).Nodup)
    (h : SameAnswer Bulk.Unnumbers answer x.answer) :
    List.Forall₂ (fun item b => item.line?.isSome → x.Tells item b) chunk
      (Bulk.chunkResults chunk x.answer) := by
  cases ha : x.answer with
  | error f =>
    refine Bulk.forall₂_resultsFrom (fun _ _ _ _ _ _ => .failure ha rfl) fun item _ hnone hline => ?_
    rw [hnone] at hline
    cases hline
  | ok a =>
    obtain ⟨statuses, hread, htold⟩ := Bulk.forall₂_same hm hd (ha ▸ h)
    refine htold.imp fun item b hb hline => ?_
    rw [Bulk.Told, if_pos hline] at hb
    obtain ⟨s, hs, hkey, hb⟩ := hb
    exact .status ha hread hs hkey hb

def ToldBy (k : Client) (path : String) (items : List BulkItem) (calls : List CallRecord)
    (item : BulkItem) (b : BulkResult) : Prop :=
  ∃ chunk ∈ Bulk.chunks k.config.bulkBatchSize items, item ∈ chunk ∧
    ∃ x ∈ calls, x.request = Bulk.chunkRequest path chunk ∧ x.Tells item b

theorem keyed_results (hp : p.Unnumbers p' k path items) (hw : w.Idle)
    (hm : k.Marked p path items w)
    (hd : ∀ chunk ∈ Bulk.chunks k.config.bulkBatchSize items,
      ((Bulk.sent chunk).map (·.identifier)).Nodup) :
    (k.bulk p' (.collection path) items w).1 = (k.bulk p (.collection path) items w).1 := by
  rw [bulk_collection, bulk_collection]
  rcases answersTo_same hp hw (max k.config.bulkConcurrency 1) with
    ⟨fault, hfault, hfault'⟩ | ⟨answers, answers', hanswers, hanswers', hlen, hsame⟩
  · rw [hfault, hfault']
  rw [hanswers, hanswers', Except.map, Except.map, Bulk.zipWith_same hlen]
  intro j chunk answer answer' hchunk ha ha'
  by_cases hlines : Bulk.lines chunk = []
  · rw [Bulk.chunkResults_unsent hlines, Bulk.chunkResults_unsent hlines]
  · exact Bulk.chunkResults_same (hm answers hanswers j chunk answer hchunk hlines ha)
      (hd chunk (List.mem_of_getElem? hchunk)) (hsame j chunk answer answer' hchunk ha ha')

theorem forall₂_toldBy {calls : List CallRecord} {x : CallRecord}
    (hchunk : chunk ∈ Bulk.chunks k.config.bulkBatchSize items) (hx : x ∈ calls)
    (hrequest : x.request = Bulk.chunkRequest path chunk) (hm : Bulk.Marks chunk answer)
    (hd : ((Bulk.sent chunk).map (·.identifier)).Nodup)
    (h : SameAnswer Bulk.Unnumbers answer x.answer) :
    List.Forall₂ (fun item b => item.line?.isSome → k.ToldBy path items calls item b) chunk
      (Bulk.chunkResults chunk x.answer) := by
  have htells := (List.forall₂_and_left _ _).mpr ⟨fun _ hitem => hitem, forall₂_tells hm hd h⟩
  exact htells.imp fun item b hb hline => ⟨chunk, hchunk, hb.1, x, hx, hrequest, hb.2 hline⟩

theorem keyed_told {results : List BulkResult} (hp : p.Unnumbers p' k path items)
    (hr : Traffic.Reaches p' k.setup ⟨k.world date credential peer, []⟩ ⟨w, []⟩)
    (hm : k.Marked p path items w)
    (hd : ∀ chunk ∈ Bulk.chunks k.config.bulkBatchSize items,
      ((Bulk.sent chunk).map (·.identifier)).Nodup)
    (h : k.bulk p' (.collection path) items w = (.ok results, w')) :
    ∃ calls, k.Made p' w w' calls ∧
      List.Forall₂ (fun item b => item.line?.isSome → k.ToldBy path items calls item b)
        items results := by
  obtain ⟨answers', w₁, hrun, hpure⟩ := Effect.bind_ok.mp h
  obtain ⟨rfl, rfl⟩ := Effect.pure_ok.mp hpure
  have hidle : w.Idle := (World.Idle.start date k.quota credential peer).of_reaches hr
  have hanswers' : (k.answersTo p' (max k.config.bulkConcurrency 1) (k.chunkOrders path items) w).1 =
      .ok answers' := congrArg Prod.fst hrun
  rcases answersTo_same hp hidle (max k.config.bulkConcurrency 1) with
    ⟨fault, -, hfault'⟩ | ⟨answers, answers₁, hanswers, hanswers₁, hlen, hsame⟩
  · cases hfault'.symm.trans hanswers'
  cases hanswers₁.symm.trans hanswers'
  obtain ⟨hcount, hmade⟩ := answersTo_made hr (fun chunk _ => k.asks_chunkOrder path chunk) hrun
  have hall := Bulk.forall₂_results hcount (R := fun item b => item.line?.isSome →
    k.ToldBy path items (CallRecord.list w.tasks
      ((Bulk.chunks k.config.bulkBatchSize items).map (Bulk.wanted path)) answers') item b) <| by
    intro j chunk answer' hchunk ha'
    by_cases hlines : Bulk.lines chunk = []
    · rw [Bulk.chunkResults_unsent hlines, List.forall₂_map_right_iff, List.forall₂_same]
      intro item hitem hline
      rw [Bulk.line?_of_unsent hlines hitem] at hline
      cases hline
    obtain ⟨answer, ha⟩ : ∃ answer, answers[j]? = some answer :=
      ⟨_, List.getElem?_eq_getElem (hlen ▸ (List.getElem?_eq_some_iff.mp ha').1)⟩
    have hmem := List.mem_of_getElem? hchunk
    exact forall₂_toldBy hmem (Bulk.mem_wanted hchunk hlines ha') rfl
      (hm answers hanswers j chunk answer hchunk hlines ha) (hd chunk hmem)
      (hsame j chunk answer answer' hchunk ha ha')
  rw [Bulk.flatten_chunks] at hall
  exact ⟨_, hmade, hall⟩

/-- Where no key comes twice in a batch, it makes no difference to the results whether a service numbers
its status lines: each item gets the status behind its key, if its call was answered. -/
theorem bulk_keyed (hp : p.Unnumbers p' k path items)
    (hr : Traffic.Reaches p' k.setup ⟨k.world date credential peer, []⟩ ⟨w, []⟩)
    (hm : k.Marked p path items w)
    (hd : ∀ chunk ∈ Bulk.chunks k.config.bulkBatchSize items,
      ((Bulk.sent chunk).map (·.identifier)).Nodup) :
    (k.bulk p' (.collection path) items w).1 = (k.bulk p (.collection path) items w).1 ∧
      ∀ results w', k.bulk p' (.collection path) items w = (.ok results, w') →
        ∃ calls, k.Made p' w w' calls ∧
          List.Forall₂ (fun item b => item.line?.isSome → k.ToldBy path items calls item b)
            items results :=
  ⟨keyed_results hp ((World.Idle.start date k.quota credential peer).of_reaches hr) hm hd,
    fun _ _ => keyed_told hp hr hm hd⟩

end Client

def Peer.saying (body : List UInt8) : Peer Unit where
  send _ _ := (⟨.zero, .ok ⟨200, [], body, .zero, 1⟩⟩, ())
  exchange _ _ := (⟨.zero, .error (.internal "no tokens")⟩, ())
  draw _ := (0, ())

theorem Peer.saying_unnumbers {body body' : List UInt8} (h : Bulk.Unnumbers body body') (k : Client)
    (path : String) (items : List BulkItem) :
    (Peer.saying body).Unnumbers (.saying body') k path items where
  exchange := rfl
  draw := rfl
  send _ _ _ _ _ _ := ⟨rfl, rfl, .body (a := ⟨200, [], body, .zero, 1⟩) rfl h⟩

theorem Peer.saying_marked {k : Client} {path : String} {items : List BulkItem} {body : List UInt8}
    {statuses : List StatusLine} (h : StatusLine.readAll (Text.Utf8.decodeLossy body) = .ok statuses)
    (hm : ∀ chunk ∈ Bulk.chunks k.config.bulkBatchSize items, Bulk.Marked (Bulk.sent chunk) statuses)
    (date : UtcTime) (credential : Option Credential) :
    k.Marked (.saying body) path items (k.world date credential ()) := by
  refine Client.marked_of_sends ?_ .refl
  intro chunk hchunk _ url authorization peer a ha
  cases ha
  exact ⟨statuses, hm chunk hchunk, h⟩

def StatusLine.accepts (line : Nat) (key : String) : StatusLine := ⟨line, none, some key, 204, none⟩

def StatusLine.writeAll (statuses : List StatusLine) : List UInt8 :=
  Text.Utf8.encode (.ofList (Body.linesText (statuses.map (·.toJson))))

def twoStatuses (key : String) : List StatusLine := [.accepts 1 "a", .accepts 2 key]

def twoUpserts (key : String) : List BulkItem :=
  [oneWrite, ⟨key, (Request.patch "families/b").withJson (.bool true)⟩]

/-- Two services that accept both lines, with numbers and without. -/
def Peer.numbering (key : String) : Peer Unit := .saying (StatusLine.writeAll (twoStatuses key))

def Peer.keying (key : String) : Peer Unit :=
  .saying (StatusLine.writeAll ((twoStatuses key).map (·.unnumbered)))

theorem marked_twoUpserts (key : String) :
    ∀ chunk ∈ Bulk.chunks 2 (twoUpserts key), Bulk.Marked (Bulk.sent chunk) (twoStatuses key) := by
  intro chunk hchunk
  cases List.mem_singleton.mp hchunk
  exact ⟨rfl, rfl⟩

theorem Client.bulk_keyed_distinct : ∃ results w calls,
    Client.inPairs.bulk (.keying "b") (.collection "families") (twoUpserts "b") Client.inPairs.fresh =
        (.ok results, w) ∧
      (Client.inPairs.bulk (.numbering "b") (.collection "families") (twoUpserts "b")
        Client.inPairs.fresh).1 = .ok results ∧
      Client.inPairs.Made (.keying "b") Client.inPairs.fresh w calls ∧
      List.Forall₂ (fun item b => item.line?.isSome →
        Client.inPairs.ToldBy "families" (twoUpserts "b") calls item b) (twoUpserts "b") results := by
  have hread : StatusLine.readAll (Text.Utf8.decodeLossy (StatusLine.writeAll (twoStatuses "b"))) =
      .ok (twoStatuses "b") := by
    decide +kernel
  have hread' : StatusLine.readAll (Text.Utf8.decodeLossy
      (StatusLine.writeAll ((twoStatuses "b").map (·.unnumbered)))) =
        .ok ((twoStatuses "b").map (·.unnumbered)) := by
    decide +kernel
  have hunnumbers : (Peer.numbering "b").Unnumbers (.keying "b") Client.inPairs "families"
      (twoUpserts "b") := Peer.saying_unnumbers ⟨_, hread, hread'⟩ _ _ _
  have hmarked : Client.inPairs.Marked (.numbering "b") "families" (twoUpserts "b")
      Client.inPairs.fresh := Peer.saying_marked hread (marked_twoUpserts "b") _ _
  have hdistinct : ∀ chunk ∈ Bulk.chunks Client.inPairs.config.bulkBatchSize (twoUpserts "b"),
      ((Bulk.sent chunk).map (·.identifier)).Nodup := by
    intro chunk hchunk
    cases List.mem_singleton.mp hchunk
    decide
  have hok : (Client.inPairs.bulk (.keying "b") (.collection "families") (twoUpserts "b")
      Client.inPairs.fresh).1.isOk := by
    decide +kernel
  have hstart : Traffic.Reaches (.keying "b") Client.inPairs.setup ⟨Client.inPairs.fresh, []⟩
      ⟨Client.inPairs.fresh, []⟩ := .refl
  obtain ⟨hsame, htold⟩ := Client.bulk_keyed hunnumbers hstart hmarked hdistinct
  rcases h : Client.inPairs.bulk (.keying "b") (.collection "families") (twoUpserts "b")
    Client.inPairs.fresh with ⟨fault | results, w⟩
  · rw [h] at hok
    cases hok
  · rw [h] at hsame
    obtain ⟨calls, hmade, hall⟩ := htold results w h
    exact ⟨results, w, calls, rfl, hsame.symm, hmade, hall⟩

/-- Two writes with the same key: without numbers, both status lines are taken for the first. -/
theorem Client.keyed_lost :
    (Peer.numbering "a").Unnumbers (.keying "a") Client.inPairs "families" (twoUpserts "a") ∧
      Client.inPairs.Marked (.numbering "a") "families" (twoUpserts "a") Client.inPairs.fresh ∧
      (Client.inPairs.bulk (.numbering "a") (.collection "families") (twoUpserts "a")
        Client.inPairs.fresh).1.toOption = some [⟨"a", 204, none⟩, ⟨"a", 204, none⟩] ∧
      (Client.inPairs.bulk (.keying "a") (.collection "families") (twoUpserts "a")
        Client.inPairs.fresh).1.toOption = some [⟨"a", 204, none⟩, Bulk.missingStatus "a"] := by
  have hread : StatusLine.readAll (Text.Utf8.decodeLossy (StatusLine.writeAll (twoStatuses "a"))) =
      .ok (twoStatuses "a") := by
    decide +kernel
  have hread' : StatusLine.readAll (Text.Utf8.decodeLossy
      (StatusLine.writeAll ((twoStatuses "a").map (·.unnumbered)))) =
        .ok ((twoStatuses "a").map (·.unnumbered)) := by
    decide +kernel
  refine ⟨Peer.saying_unnumbers ⟨_, hread, hread'⟩ _ _ _,
    Peer.saying_marked hread (marked_twoUpserts "a") _ _, ?_, ?_⟩
  · decide +kernel
  · decide +kernel

end CatalogClient
