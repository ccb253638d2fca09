import CatalogClient.Proofs.Pipeline.Tries
/-!
The exchanges of one refresh: a block of them with the refresh token, if one is stored, and then, if there
was none or it was rejected, a block with the primary grant. A block goes on as long as its exchanges fail in
a way that may pass, and its retries are counted from its beginning.
-/

namespace CatalogClient

/-- An exchange, and the answer to it with the time when it came. -/
structure Round where
  grant : Grant
  asked : Instant
  answer : Option (Instant × Except Failure TokenGrant)

def Event.ofRefresh : Event → Bool
  | .exchanged .. | .issued .. | .refreshed .. => true
  | _ => false

namespace Journal

def tell (answer : Instant × Except Failure TokenGrant) : List Round → List Round
  | ⟨g, asked, none⟩ :: rounds => ⟨g, asked, some answer⟩ :: rounds
  | rounds => rounds

/-- The exchanges that a task has made since its last refresh ended, the latest first. -/
def rounds (i : Nat) : List Entry → List Round
  | [] => []
  | ⟨time, .exchanged j g⟩ :: journal =>
    if j = i then ⟨g, time, none⟩ :: rounds i journal else rounds i journal
  | ⟨time, .issued j answer⟩ :: journal =>
    if j = i then tell (time, answer) (rounds i journal) else rounds i journal
  | ⟨_, .refreshed j _⟩ :: journal => if j = i then [] else rounds i journal
  | _ :: journal => rounds i journal

/-- The credential that is stored, where `seed` was at first. -/
def stored (seed : Option Credential) : List Entry → Option Credential
  | [] => seed
  | ⟨_, .refreshed _ (.ok credential)⟩ :: _ => some credential
  | _ :: journal => stored seed journal

variable {i : Nat} {journal : List Entry}

theorem own_rounds : Own rounds := by
  intro i e journal h
  obtain ⟨time, event⟩ := e
  cases event with
  | exchanged j g => exact if_neg fun hj => h (by rw [← hj]; rfl)
  | issued j answer => exact if_neg fun hj => h (by rw [← hj]; rfl)
  | refreshed j result => exact if_neg fun hj => h (by rw [← hj]; rfl)
  | _ => rfl

theorem rounds_of_calm {es : List Entry} (h : ∀ e ∈ es, e.event.ofRefresh = false) :
    rounds i (es ++ journal) = rounds i journal := by
  induction es with
  | nil => rfl
  | cons e es ih =>
    rw [← ih fun x hx => h x (List.mem_cons_of_mem _ hx)]
    have he := h e List.mem_cons_self
    obtain ⟨time, event⟩ := e
    cases event <;> first | rfl | cases he

theorem stored_of_calm {seed : Option Credential} {es : List Entry}
    (h : ∀ e ∈ es, ∀ j credential, e.event ≠ .refreshed j (.ok credential)) :
    stored seed (es ++ journal) = stored seed journal := by
  induction es with
  | nil => rfl
  | cons e es ih =>
    rw [← ih fun x hx => h x (List.mem_cons_of_mem _ hx)]
    have he := h e List.mem_cons_self
    obtain ⟨time, event⟩ := e
    cases event with
    | refreshed j result =>
      cases result with
      | ok credential => exact absurd rfl (he j credential)
      | error f => rfl
    | _ => rfl

theorem exchanges_append (es journal : List Entry) :
    exchanges (es ++ journal) = exchanges journal ++ exchanges es := by
  simp [exchanges]

theorem exchanges_of_calm {es : List Entry} (h : ∀ e ∈ es, ∀ j g, e.event ≠ .exchanged j g) :
    exchanges (es ++ journal) = exchanges journal := by
  have hnone : exchanges es = [] := by
    refine List.filterMap_eq_nil_iff.mpr fun e he => ?_
    have hother := h e (List.mem_reverse.mp he)
    obtain ⟨time, event⟩ := e
    cases event with
    | exchanged j g => exact absurd rfl (hother j g)
    | _ => rfl
  rw [exchanges_append, hnone, List.append_nil]

theorem length_tell (answer : Instant × Except Failure TokenGrant) (rounds : List Round) :
    (tell answer rounds).length = rounds.length := by
  unfold tell
  split <;> rfl

/-- Since before the exchanges of a task nobody else has had anything to do with a refresh. -/
def Apart (i : Nat) (journal before : List Entry) : Prop :=
  ∃ stretch, journal = stretch ++ before ∧ rounds i before = [] ∧
    ∀ e ∈ stretch, e.event.ofRefresh → e.event.task? = some i ∧ ∀ result, e.event ≠ .refreshed i result

theorem Apart.append {before : List Entry} (h : Apart i journal before) (es : List Entry)
    (he : ∀ e ∈ es, e.event.ofRefresh → e.event.task? = some i ∧ ∀ result, e.event ≠ .refreshed i result) :
    Apart i (es ++ journal) before := by
  obtain ⟨stretch, rfl, hbefore, hstretch⟩ := h
  refine ⟨es ++ stretch, by rw [List.append_assoc], hbefore, ?_⟩
  intro e hmem
  rcases List.mem_append.mp hmem with hmem | hmem
  · exact he e hmem
  · exact hstretch e hmem

theorem Apart.count {before : List Entry} (h : Apart i journal before) :
    (exchanges journal).length = (exchanges before).length + (rounds i journal).length := by
  obtain ⟨stretch, rfl, hbefore, hstretch⟩ := h
  -- each entry of the stretch that is an exchange adds one to both sides
  induction stretch with
  | nil => simp [hbefore]
  | cons e stretch ih =>
    have ih := ih fun x hx => hstretch x (List.mem_cons_of_mem _ hx)
    have he := hstretch e List.mem_cons_self
    rw [List.cons_append, ← List.singleton_append, exchanges_append, List.length_append, ih]
    obtain ⟨time, event⟩ := e
    cases event with
    | exchanged j g =>
      cases (he rfl).1
      simp [exchanges, rounds, Nat.add_assoc]
    | issued j answer =>
      cases (he rfl).1
      simp [exchanges, rounds, length_tell]
    | refreshed j result =>
      cases (he rfl).1
      exact absurd rfl ((he rfl).2 result)
    | _ => simp [exchanges, rounds]

end Journal

/-- The rest after a failed exchange, so many retries having been made with its grant. -/
def RetryPolicy.restAfter (p : RetryPolicy) (f : Failure) (retries draw : Nat) : Span :=
  min (f.retryAfter?.getD (p.backoff.delay retries draw)) longestPause

theorem RetryPolicy.restAfter_le (p : RetryPolicy) (f : Failure) (retries draw : Nat) :
    p.restAfter f retries draw ≤ longestPause :=
  Span.min_le_right _ _

/-- What a refresh comes to with the answer to its last exchange. A failure that may pass is the end of it
only when no retry is left. -/
inductive Concludes (spent : Prop) : Except Failure TokenGrant → Except Failure Credential → Prop
  | issued {grant : TokenGrant} {date : UtcTime} {credential : Credential}
    (h : Credential.issued grant date = .ok credential) : Concludes spent (.ok grant) (.ok credential)
  | failed {f : Failure} (h : f.isRetryable → spent) : Concludes spent (.error f) (.error f)

theorem Concludes.mono {spent spent' : Prop} (hs : spent → spent') {answer : Except Failure TokenGrant}
    {result : Except Failure Credential} (h : Concludes spent answer result) :
    Concludes spent' answer result := by
  cases h with
  | issued h => exact .issued h
  | failed h => exact .failed fun hf => hs (h hf)

section Shape

variable {σ : Type} {p : Peer σ} {c : Setup}

/-- Exchanges with one grant, the latest first. Each but the latest failed in a way that may pass, and the
next one came after the rest that its failure calls for. -/
inductive Block (p : Peer σ) (policy : RetryPolicy) (g : Grant) : List Round → Prop
  | first (asked : Instant) (answer : Option (Instant × Except Failure TokenGrant)) :
    Block p policy g [⟨g, asked, answer⟩]
  | again {asked asked' time : Instant} {f : Failure} {earlier : List Round} (peer : σ)
    (answer : Option (Instant × Except Failure TokenGrant))
    (h : Block p policy g (⟨g, asked, some (time, .error f)⟩ :: earlier)) (hf : f.isRetryable)
    (hm : earlier.length < policy.maxRetries)
    (hw : time.timer (policy.restAfter f earlier.length (p.draw peer).1) ≤ asked') :
    Block p policy g (⟨g, asked', answer⟩ :: ⟨g, asked, some (time, .error f)⟩ :: earlier)

namespace Block

variable {policy : RetryPolicy} {g : Grant} {rounds : List Round}

theorem length_le (h : Block p policy g rounds) : rounds.length ≤ policy.maxRetries + 1 := by
  cases h with
  | first => exact Nat.succ_le_succ (Nat.zero_le _)
  | again peer answer h hf hm hw =>
    simp only [List.length_cons]
    omega

theorem retried (h : Block p policy g rounds) :
    ∀ x ∈ rounds.tail, ∃ time f, x.answer = some (time, .error f) ∧ f.isRetryable := by
  induction h with
  | first asked answer => simp
  | again peer answer h hf hm hw ih =>
    intro x hx
    rcases List.mem_cons.mp hx with rfl | hx
    · exact ⟨_, _, rfl, hf⟩
    · exact ih x hx

theorem answered {asked : Instant} {a : Option (Instant × Except Failure TokenGrant)}
    {earlier : List Round} (h : Block p policy g (⟨g, asked, a⟩ :: earlier))
    (answer : Option (Instant × Except Failure TokenGrant)) :
    Block p policy g (⟨g, asked, answer⟩ :: earlier) := by
  cases h with
  | first => exact .first asked answer
  | again peer _ h hf hm hw => exact .again peer answer h hf hm hw

end Block

/-- The answer to an exchange is the service's. -/
def Round.Told (p : Peer σ) (x : Round) : Prop :=
  ∀ time answer, x.answer = some (time, answer) → ∃ peer, (p.exchange x.grant peer).1.answer = answer

/-- The exchanges of a refresh, those with the refresh token told apart from those with the primary grant. -/
structure Refreshed (p : Peer σ) (c : Setup) (token : Option String) (first last : List Round)
    (result : Except Failure Credential) : Prop where
  withToken : ∀ tk, token = some tk → Block p c.policy (.refreshToken tk) first
  without : token = none → first = [] ∧ last ≠ []
  primary : last ≠ [] → Block p c.policy c.grant last
  fallsBack : ∀ tk, token = some tk → (last ≠ [] ↔ ∃ x earlier time status m,
    first = x :: earlier ∧ x.answer = some (time, .error (.authentication status m)))
  told : ∀ x ∈ last ++ first, x.Told p
  ended : ∃ x earlier time answer, last ++ first = x :: earlier ∧ x.answer = some (time, answer) ∧
    Concludes ((if last = [] then first else last).length = c.policy.maxRetries + 1) answer result

namespace Refreshed

variable {token : Option String} {first last : List Round} {result : Except Failure Credential}

theorem first_cases (h : Refreshed p c token first last result) :
    first = [] ∨ ∃ tk, Block p c.policy (.refreshToken tk) first := by
  cases token with
  | none => exact .inl (h.without rfl).1
  | some tk => exact .inr ⟨tk, h.withToken tk rfl⟩

theorem last_cases (h : Refreshed p c token first last result) :
    last = [] ∨ Block p c.policy c.grant last :=
  or_iff_not_imp_left.mpr h.primary

theorem length_first (h : Refreshed p c token first last result) :
    first.length ≤ c.policy.maxRetries + 1 := by
  rcases h.first_cases with rfl | ⟨tk, hblock⟩
  · exact Nat.zero_le _
  · exact hblock.length_le

theorem length_last (h : Refreshed p c token first last result) :
    last.length ≤ c.policy.maxRetries + 1 := by
  rcases h.last_cases with rfl | hblock
  · exact Nat.zero_le _
  · exact hblock.length_le

theorem retried (h : Refreshed p c token first last result) :
    ∀ x ∈ first.tail ++ last.tail, ∃ time f, x.answer = some (time, .error f) ∧ f.isRetryable := by
  intro x hx
  rcases List.mem_append.mp hx with hx | hx
  · rcases h.first_cases with rfl | ⟨tk, hblock⟩
    · cases hx
    · exact hblock.retried x hx
  · rcases h.last_cases with rfl | hblock
    · cases hx
    · exact hblock.retried x hx

end Refreshed

/-- The exchanges before those with the present grant. -/
inductive Front (p : Peer σ) (c : Setup) : Option String → List Round → Refresh → Prop
  | primary (retries : Nat) : Front p c none [] ⟨c.grant, retries, none⟩
  | token (tk : String) (retries : Nat) :
    Front p c (some tk) [] ⟨.refreshToken tk, retries, some c.grant⟩
  | fellBack {tk m : String} {asked time : Instant} {status : Option Nat} {earlier : List Round}
    (retries : Nat) (h : Block p c.policy (.refreshToken tk)
      (⟨.refreshToken tk, asked, some (time, .error (.authentication status m))⟩ :: earlier)) :
    Front p c (some tk)
      (⟨.refreshToken tk, asked, some (time, .error (.authentication status m))⟩ :: earlier)
      ⟨c.grant, retries, none⟩

/-- The exchanges with the present grant, by the stage of the task that makes them. -/
inductive Stands (p : Peer σ) (policy : RetryPolicy) : Refresh → Stage → List Round → Prop
  | begins {r : Refresh} (h : r.retries = 0) : Stands p policy r (.exchanging r) []
  | asks {r : Refresh} {asked : Instant} {earlier : List Round} (wake : Instant) (peer : σ)
    (h : Block p policy r.grant (⟨r.grant, asked, none⟩ :: earlier))
    (hn : r.retries = earlier.length) :
    Stands p policy r (.awaitingToken r wake (p.exchange r.grant peer).1.answer)
      (⟨r.grant, asked, none⟩ :: earlier)
  | rests {r : Refresh} {asked time : Instant} {f : Failure} {earlier : List Round} (peer : σ)
    (h : Block p policy r.grant (⟨r.grant, asked, some (time, .error f)⟩ :: earlier))
    (hf : f.isRetryable) (hm : earlier.length < policy.maxRetries)
    (hn : r.retries = earlier.length + 1) :
    Stands p policy r
      (.resting r (time.timer (policy.restAfter f earlier.length (p.draw peer).1)))
      (⟨r.grant, asked, some (time, .error f)⟩ :: earlier)

theorem Stands.asked {policy : RetryPolicy} {r r' : Refresh} {wake : Instant}
    {answer : Except Failure TokenGrant} {last : List Round}
    (h : Stands p policy r' (.awaitingToken r wake answer) last) : r' = r ∧
      ∃ asked earlier, last = ⟨r.grant, asked, none⟩ :: earlier ∧
        Block p policy r.grant (⟨r.grant, asked, none⟩ :: earlier) ∧ r.retries = earlier.length ∧
        ∃ peer, (p.exchange r.grant peer).1.answer = answer := by
  cases h with
  | asks wake peer h hn => exact ⟨rfl, _, _, rfl, h, hn, peer, rfl⟩

theorem Stands.next {policy : RetryPolicy} {r r' : Refresh} {now : Instant} {stage : Stage}
    {last : List Round} (h : Stands p policy r' stage last)
    (hs : stage = .exchanging r ∨ ∃ wake, wake ≤ now ∧ stage = .resting r wake) : r' = r ∧
      Block p policy r.grant (⟨r.grant, now, none⟩ :: last) ∧ r.retries = last.length := by
  cases h with
  | begins h =>
    rcases hs with hs | ⟨wake, -, hs⟩
    · cases hs
      exact ⟨rfl, .first now none, h⟩
    · cases hs
  | asks => rcases hs with hs | ⟨wake, -, hs⟩ <;> cases hs
  | rests peer h hf hm hn =>
    rcases hs with hs | ⟨wake, hwake, hs⟩
    · cases hs
    · cases hs
      exact ⟨rfl, h.again peer none hf hm hwake, hn⟩

/-- A refresh asks first for a token in exchange for the refresh token, if one is stored. -/
theorem Front.start (w : World σ) :
    Front p c (w.vault.credential.bind (·.refreshToken)) [] (Task.firstRefresh c w) ∧
      (Task.firstRefresh c w).retries = 0 := by
  unfold Task.firstRefresh
  cases w.vault.credential.bind (·.refreshToken) with
  | none => exact ⟨.primary 0, rfl⟩
  | some tk => exact ⟨.token tk 0, rfl⟩

theorem Front.retry {token : Option String} {first : List Round} {r : Refresh}
    (h : Front p c token first r) (retries : Nat) :
    Front p c token first { r with retries := retries } := by
  cases h with
  | primary => exact .primary retries
  | token tk => exact .token tk retries
  | fellBack _ h => exact .fellBack retries h

/-- The last exchange of a refresh makes it what a refresh has to be. -/
theorem Front.refreshed {token : Option String} {first earlier : List Round} {r : Refresh}
    (h : Front p c token first r) {asked time : Instant} {answer : Except Failure TokenGrant}
    (hb : Block p c.policy r.grant (⟨r.grant, asked, some (time, answer)⟩ :: earlier))
    (htold : ∀ x ∈ ⟨r.grant, asked, some (time, answer)⟩ :: earlier ++ first, x.Told p)
    (hr : r.fallback = none ∨ ∀ status m, answer ≠ .error (.authentication status m))
    {result : Except Failure Credential}
    (hend : Concludes (earlier.length = c.policy.maxRetries) answer result) :
    ∃ first' last', ⟨r.grant, asked, some (time, answer)⟩ :: earlier ++ first = last' ++ first' ∧
      Refreshed p c token first' last' result := by
  -- the last exchange belongs to the first block only where the fallback is still to come
  cases h with
  | primary retries =>
    refine ⟨[], ⟨c.grant, asked, some (time, answer)⟩ :: earlier, rfl, ?_⟩
    refine ⟨nofun, fun _ => ⟨rfl, nofun⟩, fun _ => hb, nofun, htold, _, _, time, answer, rfl, rfl, ?_⟩
    simpa using hend
  | token tk retries =>
    refine ⟨⟨.refreshToken tk, asked, some (time, answer)⟩ :: earlier, [], by simp, ?_⟩
    refine ⟨?_, nofun, fun h => absurd rfl h, ?_, by simpa using htold, _, _, time, answer, rfl, rfl, ?_⟩
    · rintro _ ⟨⟩
      exact hb
    · rintro _ ⟨⟩
      refine iff_of_false (fun h => h rfl) ?_
      rintro ⟨x, rest, time', status, m, hx, ha⟩
      cases hx
      cases ha
      rcases hr with hr | hr
      · cases hr
      · exact hr status m rfl
    · simpa using hend
  | @fellBack tk m asked' time' status earlier' retries hfirst =>
    refine ⟨_, ⟨c.grant, asked, some (time, answer)⟩ :: earlier, rfl, ?_⟩
    refine ⟨?_, nofun, fun _ => hb, ?_, htold, _, _, time, answer, rfl, rfl, ?_⟩
    · rintro _ ⟨⟩
      exact hfirst
    · rintro _ ⟨⟩
      exact iff_of_true nofun ⟨_, _, _, _, _, rfl, rfl⟩
    · simpa using hend

/-- The exchanges that a task made before this are those of a refresh that came to `result`. -/
def Completed (p : Peer σ) (c : Setup) (seed : Option Credential) (i : Nat)
    (result : Except Failure Credential) (journal : List Entry) : Prop :=
  ∃ first last before, Journal.rounds i journal = last ++ first ∧
    Refreshed p c ((Journal.stored seed journal).bind (·.refreshToken)) first last result ∧
    Journal.Apart i journal before

/-- Every refresh that ended made the exchanges it has to. -/
def Settled (p : Peer σ) (c : Setup) (seed : Option Credential) (journal : List Entry) : Prop :=
  ∀ time i result earlier, ⟨time, .refreshed i result⟩ :: earlier <:+ journal →
    Completed p c seed i result earlier

theorem Settled.cons {seed : Option Credential} {journal : List Entry} {e : Entry}
    (h : Settled p c seed journal)
    (he : ∀ i result, e.event = .refreshed i result → Completed p c seed i result journal) :
    Settled p c seed (e :: journal) := by
  intro time i result earlier hs
  rcases List.suffix_cons_iff.mp hs with heq | hs
  · cases heq
    exact he i result rfl
  · exact h time i result earlier hs

theorem Settled.append {seed : Option Credential} {journal es : List Entry}
    (h : Settled p c seed journal) (he : ∀ e ∈ es, ∀ i result, e.event ≠ .refreshed i result) :
    Settled p c seed (es ++ journal) := by
  induction es with
  | nil => exact h
  | cons e es ih =>
    refine (ih fun x hx => he x (List.mem_cons_of_mem _ hx)).cons ?_
    exact fun i result hr => absurd hr (he e List.mem_cons_self i result)

end Shape

end CatalogClient
