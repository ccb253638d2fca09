import CatalogClient.Proofs.Credential.Rounds
import CatalogClient.Proofs.Credential.SingleFlight
import CatalogClient.Proofs.Pipeline.Guard
import CatalogClient.Proofs.Pipeline.Runs
/-!
What a task does for a refresh while it has the lock, and what comes of it. Nobody else has anything to do
with a refresh meanwhile, so that the exchanges since the refresh began are those of the task.
-/

namespace CatalogClient

namespace Task

variable {σ : Type} {p : Peer σ} {c : Setup} {w w' : World σ} {t t' : Task}

/-- What a step of a task means for the refresh of the credential. -/
inductive Move.Trades (p : Peer σ) (c : Setup) (w w' : World σ) (t t' : Task) : Prop
  | apart (es : List Entry) (he : ∀ e ∈ es, e.event.ofRefresh = false)
    (hj : w'.journal = es ++ w.journal) (hx : w'.exchanges = w.exchanges)
    (hv : w'.vault.credential = w.vault.credential) (hs : t.stage.holds = false)
    (hs' : t'.stage.holds = false)
  | begins (hj : w'.journal = w.journal) (hx : w'.exchanges = w.exchanges) (hv : w'.vault = w.vault)
    (hs : t.stage.holds = false) (hs' : t'.stage = .exchanging (firstRefresh c w))
  | asks {r : Refresh} {wake : Instant} (hs : t.Exchanges w.now r)
    (hj : w'.journal = ⟨w.now, .exchanged t.id r.grant⟩ :: w.journal)
    (hx : w'.exchanges = w.exchanges + 1) (hv : w'.vault = w.vault)
    (hs' : t'.stage = .awaitingToken r wake (p.exchange r.grant w.peer).1.answer)
  | rests {r : Refresh} {wake : Instant} {f : Failure}
    (hs : t.stage = .awaitingToken r wake (.error f)) (hf : f.isRetryable)
    (hr : r.retries < c.policy.maxRetries)
    (hj : w'.journal = ⟨w.now, .issued t.id (.error f)⟩ :: w.journal)
    (hx : w'.exchanges = w.exchanges) (hv : w'.vault = w.vault)
    (hs' : t'.stage = .resting { r with retries := r.retries + 1 }
      (w.now.timer (c.policy.restAfter f r.retries (p.draw w.peer).1)))
  | fallsBack {r : Refresh} {wake : Instant} {status : Option Nat} {m : String} {grant : Grant}
    (hs : t.stage = .awaitingToken r wake (.error (.authentication status m)))
    (hr : r.fallback = some grant)
    (hj : w'.journal = ⟨w.now, .issued t.id (.error (.authentication status m))⟩ :: w.journal)
    (hx : w'.exchanges = w.exchanges) (hv : w'.vault = w.vault)
    (hs' : t'.stage = .exchanging ⟨grant, 0, none⟩)
  | ends {r : Refresh} {wake : Instant} {answer : Except Failure TokenGrant}
    {result : Except Failure Credential} (hs : t.stage = .awaitingToken r wake answer)
    (hr : r.fallback = none ∨ ∀ status m, answer ≠ .error (.authentication status m))
    (hend : Concludes (¬ r.retries < c.policy.maxRetries) answer result)
    (hj : w'.journal = ⟨w.now, .obtained t.id result⟩ :: ⟨w.now, .refreshed t.id result⟩ ::
      ⟨w.now, .issued t.id answer⟩ :: w.journal)
    (hx : w'.exchanges = w.exchanges) (hv : w'.vault = w.vault.refreshed result)
    (hs' : t'.stage.holds = false)

theorem Asks.holds {now : Instant} (h : t.Asks now) : t.stage.holds = false :=
  Stage.holds_of_outside h.isInside

theorem Exchanges.holds {now : Instant} {r : Refresh} (h : t.Exchanges now r) : t.stage.holds := by
  rcases h with hs | ⟨wake, -, hs⟩
  · rw [hs]
    rfl
  · rw [hs]
    rfl

theorem obtained_holds (t : Task) (result : Except Failure Credential) :
    (t.obtained result).holds = false :=
  Stage.holds_of_outside (t.obtained_isInside result)

theorem Move.Trades.ofStage {stage : Stage} (es : List Entry)
    (he : ∀ e ∈ es, e.event.ofRefresh = false) (hj : w'.journal = es ++ w.journal)
    (hx : w'.exchanges = w.exchanges) (hv : w'.vault.credential = w.vault.credential)
    (hs : t.stage = stage) (hh : stage.holds = false) (hs' : t'.stage.holds = false) :
    Move.Trades p c w w' t t' :=
  .apart es he hj hx hv (hs ▸ hh) hs'

theorem Move.trades (h : t.Move p c w w' t') : Move.Trades p c w w' t t' := by
  cases h with
  | stray hs hg => exact .ofStage [] (by simp) rfl rfl rfl hs rfl rfl
  | refused ha hl => exact .apart [] (by simp) rfl rfl rfl ha.holds rfl
  | granted ha hl =>
    exact .apart [_] (by simp [Event.ofRefresh]) rfl rfl rfl ha.holds
      (Stage.holds_of_outside t.admitted_isInside)
  | found hs hu =>
    exact .ofStage [_] (by simp [Event.ofRefresh]) rfl rfl rfl hs rfl (t.obtained_holds _)
  | lined hs hu => exact .ofStage [] (by simp) rfl rfl rfl hs rfl rfl
  | shared hs hh hu =>
    exact .ofStage [_] (by simp [Event.ofRefresh]) rfl rfl rfl hs rfl (t.obtained_holds _)
  | sharedFailure hs hh hu hg hf =>
    exact .ofStage [_] (by simp [Event.ofRefresh]) rfl rfl rfl hs rfl (t.obtained_holds _)
  | refresh hs hh hu hg => exact .begins rfl rfl rfl (by rw [hs]; rfl) rfl
  | exchange he => exact .asks he rfl rfl rfl rfl
  | issued hs hw hi =>
    exact .ends hs (.inr nofun) (.issued hi) rfl rfl rfl (t.obtained_holds _)
  | rest hs hw hf hr => exact .rests hs hf hr rfl rfl rfl rfl
  | fallBack hs hw hf hr =>
    obtain ⟨status, m, rfl⟩ := hf
    exact .fallsBack hs hr rfl rfl rfl rfl
  | refreshFailed hs hw hr hf =>
    refine .ends hs (hf.imp_right fun hf status m he => ?_) (.failed fun hf hleft => hr ⟨hf, hleft⟩)
      rfl rfl rfl (t.obtained_holds _)
    exact hf status m (Except.error.inj he)
  | send hs hg ha => exact .ofStage [_] (by simp [Event.ofRefresh]) rfl rfl rfl hs rfl rfl
  | succeed hs hw hg ha hok =>
    exact .ofStage [_] (by simp [Event.ofRefresh]) rfl rfl rfl hs rfl rfl
  | fail hs hw hg hf hd => exact .ofStage [_] (by simp [Event.ofRefresh]) rfl rfl rfl hs rfl rfl
  | reject hs hw hg hf ha hr =>
    exact .ofStage [_, _] (by simp [Event.ofRefresh]) rfl rfl (Vault.stays_invalidate _ _).credential
      hs rfl rfl
  | slow hs hw hg hf hc hr hd =>
    exact .ofStage [_, _] (by simp [Event.ofRefresh]) rfl rfl rfl hs rfl
      (Stage.holds_of_outside (pause_isInside _ _))
  | retry hs hw hg hf hc hr hd =>
    exact .ofStage [_] (by simp [Event.ofRefresh]) rfl rfl rfl hs rfl
      (Stage.holds_of_outside (pause_isInside _ _))
  | idle hs hg =>
    rcases hs with hs | ⟨attempt, sent, wake, answer, hs⟩
    · exact .ofStage [] (by simp) rfl rfl rfl hs rfl rfl
    · exact .ofStage [] (by simp) rfl rfl rfl hs rfl rfl

end Task

namespace Traffic

variable {σ : Type} {p : Peer σ} {c : Setup} {w w' : World σ} {t t' u : Task}

def Locks (w : World σ) (t : Task) : Prop := t.stage.holds → w.turnstile.holder = some t.id

theorem Locks.move (h : Locks w t) (hm : t.Move p c w w' t') : Locks w' t' := by
  intro hh
  cases hm.passes with
  | stays hl hi hheld =>
    rw [hl, hm.id_eq]
    exact (hheld hh).elim id h
  | enters hl hi hi' hout =>
    rw [hh] at hout
    cases hout
  | leaves hl hi' =>
    rw [Stage.isInside_of_holds hh] at hi'
    cases hi'

theorem Locks.leave (h : Locks w u) (hne : u.id ≠ t.id)
    (hl : w'.turnstile = w.turnstile.leave t.id) : Locks w' u := by
  intro hh
  rw [hl, Turnstile.holder_leave (h hh) hne]

theorem Locks.other (h : Locks w u) (hm : t.Move p c w w' t') (hne : u.id ≠ t.id) :
    Locks w' u := by
  intro hh
  cases hm.passes with
  | stays hl hi hheld => rw [hl, h hh]
  | enters hl hi hi' hout => rw [hl, Turnstile.holder_enter t.id (h hh)]
  | leaves hl hi' => exact h.leave hne hl hh

theorem Locks.only (h : Locks w u) (h' : Locks w t) (hu : u.stage.holds) (ht : t.stage.holds) :
    u.id = t.id :=
  Option.some.inj ((h hu).symm.trans (h' ht))

/-- A task that refreshes the credential, and what it has done for it so far. -/
structure Underway (p : Peer σ) (c : Setup) (i : Nat) (token : Option String) (stage : Stage)
    (journal : List Entry) : Prop where
  shape : ∃ r first last, Journal.rounds i journal = last ++ first ∧ Front p c token first r ∧
    Stands p c.policy r stage last ∧ ∀ x ∈ last ++ first, x.Told p
  apart : ∃ before, Journal.Apart i journal before

namespace Underway

variable {i : Nat} {token : Option String} {journal : List Entry} {r : Refresh}

theorem begins (w : World σ) (h : Journal.rounds i journal = []) :
    Underway p c i (w.vault.credential.bind (·.refreshToken))
      (.exchanging (Task.firstRefresh c w)) journal := by
  obtain ⟨hfront, hzero⟩ := Front.start (p := p) (c := c) w
  exact ⟨⟨_, [], [], h, hfront, .begins hzero, by simp⟩, journal, [], rfl, h, by simp⟩

theorem quiet {stage : Stage} (h : Underway p c i token stage journal) {es : List Entry}
    (he : ∀ e ∈ es, e.event.ofRefresh = false) : Underway p c i token stage (es ++ journal) := by
  obtain ⟨hshape, before, hapart⟩ := h
  refine ⟨?_, before, hapart.append es fun e hmem hrefresh => ?_⟩
  · rw [Journal.rounds_of_calm he]
    exact hshape
  · rw [he e hmem] at hrefresh
    cases hrefresh

theorem asks {stage : Stage} {now : Instant} (h : Underway p c i token stage journal)
    (hs : stage = .exchanging r ∨ ∃ wake, wake ≤ now ∧ stage = .resting r wake) (wake : Instant)
    (peer : σ) :
    Underway p c i token (.awaitingToken r wake (p.exchange r.grant peer).1.answer)
      (⟨now, .exchanged i r.grant⟩ :: journal) := by
  obtain ⟨⟨r', first, last, hrounds, hfront, hstands, htold⟩, before, hapart⟩ := h
  obtain ⟨rfl, hblock, hretries⟩ := hstands.next hs
  refine ⟨⟨r', first, ⟨r'.grant, now, none⟩ :: last, ?_, hfront, .asks wake peer hblock hretries, ?_⟩,
    before, hapart.append [_] ?_⟩
  · simp [Journal.rounds, hrounds]
  · intro x hx
    rcases List.mem_cons.mp hx with rfl | hx
    · intro time answer hnone
      cases hnone
    · exact htold x hx
  · simp [Event.task?]

/-- With the answer to the last exchange, the exchanges with its grant are still a block. -/
theorem heard {wake : Instant} {answer : Except Failure TokenGrant}
    (h : Underway p c i token (.awaitingToken r wake answer) journal) (time : Instant) :
    ∃ asked earlier first,
      Journal.rounds i (⟨time, .issued i answer⟩ :: journal) =
        ⟨r.grant, asked, some (time, answer)⟩ :: earlier ++ first ∧
      Front p c token first r ∧
      Block p c.policy r.grant (⟨r.grant, asked, some (time, answer)⟩ :: earlier) ∧
      r.retries = earlier.length ∧
      (∀ x ∈ ⟨r.grant, asked, some (time, answer)⟩ :: earlier ++ first, x.Told p) ∧
      ∃ before, Journal.Apart i (⟨time, .issued i answer⟩ :: journal) before := by
  obtain ⟨⟨r', first, last, hrounds, hfront, hstands, htold⟩, before, hapart⟩ := h
  obtain ⟨rfl, asked, earlier, rfl, hblock, hretries, peer, hpeer⟩ := hstands.asked
  refine ⟨asked, earlier, first, ?_, hfront, hblock.answered _, hretries, ?_,
    before, hapart.append [_] ?_⟩
  · simp [Journal.rounds, hrounds, Journal.tell]
  · intro x hx
    rcases List.mem_cons.mp hx with rfl | hx
    · rintro _ _ ⟨⟩
      exact ⟨peer, hpeer⟩
    · exact htold x (List.mem_cons_of_mem _ hx)
  · simp [Event.task?]

theorem rests {wake : Instant} {f : Failure}
    (h : Underway p c i token (.awaitingToken r wake (.error f)) journal) (hf : f.isRetryable)
    (hr : r.retries < c.policy.maxRetries) (time : Instant) (peer : σ) :
    Underway p c i token
      (.resting { r with retries := r.retries + 1 }
        (time.timer (c.policy.restAfter f r.retries (p.draw peer).1)))
      (⟨time, .issued i (.error f)⟩ :: journal) := by
  obtain ⟨asked, earlier, first, hrounds, hfront, hblock, hretries, htold, hapart⟩ := h.heard time
  rw [hretries] at hr ⊢
  exact ⟨⟨_, first, _, hrounds, hfront.retry _, .rests peer hblock hf hr rfl, htold⟩, hapart⟩

theorem fallsBack {wake : Instant} {status : Option Nat} {m : String} {grant : Grant}
    (h : Underway p c i token (.awaitingToken r wake (.error (.authentication status m))) journal)
    (hr : r.fallback = some grant) (time : Instant) :
    Underway p c i token (.exchanging ⟨grant, 0, none⟩)
      (⟨time, .issued i (.error (.authentication status m))⟩ :: journal) := by
  obtain ⟨asked, earlier, first, hrounds, hfront, hblock, -, htold, hapart⟩ := h.heard time
  cases hfront with
  | primary => cases hr
  | token tk retries =>
    cases hr
    rw [List.append_nil] at hrounds htold
    exact ⟨⟨_, _, [], hrounds, .fellBack 0 hblock, .begins rfl, htold⟩, hapart⟩
  | fellBack => cases hr

theorem ends {seed : Option Credential} {wake : Instant} {answer : Except Failure TokenGrant}
    (h : Underway p c i ((Journal.stored seed journal).bind (·.refreshToken))
      (.awaitingToken r wake answer) journal) (time : Instant)
    (hr : r.fallback = none ∨ ∀ status m, answer ≠ .error (.authentication status m))
    {result : Except Failure Credential}
    (hend : Concludes (¬ r.retries < c.policy.maxRetries) answer result) :
    Completed p c seed i result (⟨time, .issued i answer⟩ :: journal) := by
  obtain ⟨asked, earlier, first, hrounds, hfront, hblock, hretries, htold, before, hapart⟩ :=
    h.heard time
  have hspent : ¬ r.retries < c.policy.maxRetries → earlier.length = c.policy.maxRetries := by
    have hlength := hblock.length_le
    rw [List.length_cons] at hlength
    omega
  obtain ⟨first', last', hsplit, hshape⟩ := hfront.refreshed hblock htold hr (hend.mono hspent)
  exact ⟨first', last', before, hrounds.trans hsplit, hshape, hapart⟩

end Underway

/-- The exchanges of a task are those of the refresh that it is about. -/
structure Course (p : Peer σ) (c : Setup) (w : World σ) (t : Task) : Prop where
  begun : t.id < w.tasks
  locks : Locks w t
  outside : t.stage.outcome? = none → t.stage.holds = false → Journal.rounds t.id w.journal = []
  inside : t.stage.holds →
    Underway p c t.id (w.vault.credential.bind (·.refreshToken)) t.stage w.journal

theorem Course.ofOutside (hbegun : t.id < w.tasks) (hh : t.stage.holds = false)
    (h : t.stage.outcome? = none → Journal.rounds t.id w.journal = []) : Course p c w t := by
  refine ⟨hbegun, ?_, fun hu _ => h hu, ?_⟩
  · intro ht
    rw [hh] at ht
    cases ht
  · intro ht
    rw [hh] at ht
    cases ht

theorem Course.start (hrec : w.Recorded) (goal : Goal) (deadline : Option Span) :
    Course p c { w with tasks := w.tasks + 1 } (Task.start w w.tasks goal deadline) := by
  refine .ofOutside (Nat.lt_succ_self _) ?_ fun _ => hrec.view_eq Journal.own_rounds
  cases goal <;> rfl

theorem Course.move (h : Course p c w t) (hm : t.Move p c w w' t') : Course p c w' t' := by
  have hbegun : t'.id < w'.tasks := by
    rw [hm.id_eq, hm.tasks_eq]
    exact h.begun
  have hlocks := h.locks.move hm
  have hinside (stage : Stage) (hs : t'.stage = stage) (hh : stage.holds)
      (hv : w'.vault.credential = w.vault.credential)
      (hunder : Underway p c t.id (w.vault.credential.bind (·.refreshToken)) stage w'.journal) :
      Course p c w' t' := by
    cases hs
    refine ⟨hbegun, hlocks, ?_, fun _ => ?_⟩
    · intro _ hfree
      rw [hfree] at hh
      cases hh
    · rw [hm.id_eq, hv]
      exact hunder
  cases hm.trades with
  | apart es he hj hx hv hs hs' =>
    refine .ofOutside hbegun hs' fun _ => ?_
    rw [hm.id_eq, hj, Journal.rounds_of_calm he]
    exact h.outside hm.undone hs
  | begins hj hx hv hs hs' =>
    refine hinside _ hs' rfl (congrArg _ hv) ?_
    rw [hj]
    exact .begins w (h.outside hm.undone hs)
  | asks he hj hx hv hs' =>
    refine hinside _ hs' rfl (congrArg _ hv) ?_
    rw [hj]
    exact (h.inside he.holds).asks he _ w.peer
  | rests hs hf hr hj hx hv hs' =>
    have hunder := h.inside (by rw [hs]; rfl)
    rw [hs] at hunder
    refine hinside _ hs' rfl (congrArg _ hv) ?_
    rw [hj]
    exact hunder.rests hf hr w.now w.peer
  | fallsBack hs hr hj hx hv hs' =>
    have hunder := h.inside (by rw [hs]; rfl)
    rw [hs] at hunder
    refine hinside _ hs' rfl (congrArg _ hv) ?_
    rw [hj]
    exact hunder.fallsBack hr w.now
  | ends hs hr hend hj hx hv hs' =>
    refine .ofOutside hbegun hs' fun _ => ?_
    rw [hm.id_eq, hj]
    simp [Journal.rounds]

/-- While a task has the lock, nobody else does anything about a refresh. -/
theorem Course.other (h : Course p c w u) (ht : Course p c w t) (hm : t.Move p c w w' t')
    (hne : u.id ≠ t.id) : Course p c w' u := by
  refine ⟨hm.tasks_eq ▸ h.begun, h.locks.other hm hne, ?_, fun hs => ?_⟩
  · exact fun hu hs => (hm.view_other Journal.own_rounds hne).trans (h.outside hu hs)
  have hfree : ¬ t.stage.holds := fun hh => hne (h.locks.only ht.locks hs hh)
  cases hm.trades with
  | apart es he hj hx hv =>
    rw [hv, hj]
    exact (h.inside hs).quiet he
  | begins hj hx hv =>
    rw [hv, hj]
    exact h.inside hs
  | asks he => exact absurd he.holds hfree
  | rests hstage | fallsBack hstage | ends hstage => exact absurd (by rw [hstage]; rfl) hfree

theorem Course.quiet (h : Course p c w u) (es : List Entry) (hj : w'.journal = es ++ w.journal)
    (he : ∀ e ∈ es, e.event.ofRefresh = false) (hn : u.id < w'.tasks) (hl : Locks w' u)
    (hv : w'.vault.credential = w.vault.credential) : Course p c w' u := by
  refine ⟨hn, hl, fun hu hs => ?_, fun hs => ?_⟩
  · rw [hj, Journal.rounds_of_calm he]
    exact h.outside hu hs
  · rw [hv, hj]
    exact (h.inside hs).quiet he

/-- The counter, the vault and the refreshes that have ended are as the journal tells. -/
structure Ledger (p : Peer σ) (c : Setup) (seed : Option Credential) (w : World σ) : Prop where
  recorded : w.Recorded
  counted : w.exchanges = (Journal.exchanges w.journal).length
  stored : w.vault.credential = Journal.stored seed w.journal
  settled : Settled p c seed w.journal

namespace Ledger

variable {seed : Option Credential}

theorem start (date : UtcTime) (limiter : Limiter) (peer : σ) :
    Ledger p c seed (.start date limiter seed peer) := by
  refine ⟨recorded_start date limiter seed peer, rfl, rfl, ?_⟩
  intro time i result earlier hs
  cases List.eq_nil_of_suffix_nil hs

theorem quiet (h : Ledger p c seed w) (es : List Entry) (hj : w'.journal = es ++ w.journal)
    (he : ∀ e ∈ es, e.event.ofRefresh = false) (hrec : w'.Recorded)
    (hx : w'.exchanges = w.exchanges) (hv : w'.vault.credential = w.vault.credential) :
    Ledger p c seed w' := by
  have hno {e : Entry} (hmem : e ∈ es) {event : Event} (hr : event.ofRefresh) : e.event ≠ event := by
    rintro rfl
    rw [he e hmem] at hr
    cases hr
  refine ⟨hrec, ?_, ?_, ?_⟩
  · rw [hx, h.counted, hj, Journal.exchanges_of_calm fun e hmem j g => hno hmem rfl]
  · rw [hv, h.stored, hj, Journal.stored_of_calm fun e hmem j credential => hno hmem rfl]
  · rw [hj]
    exact h.settled.append fun e hmem i result => hno hmem rfl

theorem move (h : Ledger p c seed w) (ht : Course p c w t) (hm : t.Move p c w w' t') :
    Ledger p c seed w' := by
  have hrec := recorded_move h.recorded ht.begun hm
  cases hm.trades with
  | apart es he hj hx hv => exact h.quiet es hj he hrec hx hv
  | begins hj hx hv => exact h.quiet [] hj (by simp) hrec hx (congrArg _ hv)
  | asks he hj hx hv =>
    refine ⟨hrec, ?_, ?_, ?_⟩
    · rw [hx, h.counted, hj]
      simp [Journal.exchanges]
    · rw [hv, h.stored, hj]
      rfl
    · rw [hj]
      exact h.settled.cons (by simp)
  | rests hs hf hr hj hx hv | fallsBack hs hr hj hx hv =>
    refine ⟨hrec, ?_, ?_, ?_⟩
    · rw [hx, h.counted, hj]
      simp [Journal.exchanges]
    · rw [hv, h.stored, hj]
      rfl
    · rw [hj]
      exact h.settled.cons (by simp)
  | @ends r wake answer result hs hr hend hj hx hv =>
    -- nothing was stored since the refresh began, so that its refresh token is the stored one
    have hunder := ht.inside (by rw [hs]; rfl)
    rw [hs, h.stored] at hunder
    refine ⟨hrec, ?_, ?_, ?_⟩
    · rw [hx, h.counted, hj]
      simp [Journal.exchanges]
    · rw [hv, hj]
      cases result with
      | ok credential => rfl
      | error f => exact h.stored
    · rw [hj]
      refine ((h.settled.cons (e := ⟨w.now, .issued t.id answer⟩) (by simp)).cons ?_).cons (by simp)
      rintro _ _ ⟨⟩
      exact hunder.ends w.now hr hend

end Ledger

theorem course_kept (seed : Option Credential) : Kept p c (Ledger p c seed) (Course p c) where
  begin w goal deadline h := by
    have hrec : World.Recorded { w with tasks := w.tasks + 1 } :=
      fun e he i hi => Nat.lt_succ_of_lt (h.recorded e he i hi)
    exact ⟨h.quiet [] rfl (by simp) hrec rfl rfl, .start h.recorded goal deadline,
      fun u hu => hu.quiet [] rfl (by simp) (Nat.lt_succ_of_lt hu.begun) hu.locks rfl⟩
  move w t w' t' h ht hm := ⟨h.move ht hm, ht.move hm, fun u hne hu => hu.other ht hm hne⟩
  expire w t h ht hu hd := by
    have hcalm : ∀ e ∈ [(⟨w.now, .expired t.id⟩ : Entry)], e.event.ofRefresh = false := by
      simp [Event.ofRefresh]
    have hrec : (t.expire w).1.Recorded := by
      have hentry : (t.expire w).1.journal = [⟨w.now, .expired t.id⟩] ++ w.journal := rfl
      refine h.recorded.of_entries rfl hentry ?_
      intro e he i hi
      cases List.mem_singleton.mp he
      cases hi
      exact ht.begun
    exact ⟨h.quiet _ rfl hcalm hrec rfl rfl, .ofOutside ht.begun rfl nofun,
      fun u hne hu => hu.quiet _ rfl hcalm hu.begun (hu.locks.leave hne rfl) rfl⟩
  drop w t h ht :=
    ⟨h.quiet [] rfl (by simp) h.recorded rfl rfl,
      fun u hne hu => hu.quiet [] rfl (by simp) hu.begun (hu.locks.leave hne rfl) rfl⟩
  elapse w time h _ :=
    ⟨h.quiet [] rfl (by simp) h.recorded rfl rfl,
      fun u hu => hu.quiet [] rfl (by simp) hu.begun hu.locks rfl⟩
  date w date h :=
    ⟨h.quiet [] rfl (by simp) h.recorded rfl rfl,
      fun u hu => hu.quiet [] rfl (by simp) hu.begun hu.locks rfl⟩
  limit w a mark l h _ :=
    ⟨h.quiet [] rfl (by simp) h.recorded rfl rfl,
      fun u hu => hu.quiet [] rfl (by simp) hu.begun hu.locks rfl⟩
  invalidate w token h := by
    have hcalm : ∀ e ∈ [(⟨w.now, .invalidated token⟩ : Entry)], e.event.ofRefresh = false := by
      simp [Event.ofRefresh]
    have hrec : (w.invalidate token).Recorded := by
      have hentry : (w.invalidate token).journal = [⟨w.now, .invalidated token⟩] ++ w.journal := rfl
      refine h.recorded.of_entries rfl hentry ?_
      intro e he i hi
      cases List.mem_singleton.mp he
      cases hi
    have hvault := (w.vault.stays_invalidate token).credential
    exact ⟨h.quiet _ rfl hcalm hrec rfl hvault,
      fun u hu => hu.quiet _ rfl hcalm hu.begun hu.locks hvault⟩

/-- A refresh makes a block of exchanges with the refresh token and then a block with the primary grant,
one of which may be missing, and comes to what the last exchange came to. -/
theorem refresh_in_blocks {date : UtcTime} {limiter : Limiter} {seed : Option Credential} {peer : σ}
    {s : Traffic σ} (hr : Reaches p c ⟨.start date limiter seed peer, []⟩ s) :
    s.world.exchanges = (Journal.exchanges s.world.journal).length ∧
    s.world.vault.credential = Journal.stored seed s.world.journal ∧
    (∀ time i result earlier, ⟨time, .refreshed i result⟩ :: earlier <:+ s.world.journal →
      ∃ first last before, Journal.rounds i earlier = last ++ first ∧
        Refreshed p c ((Journal.stored seed earlier).bind (·.refreshToken)) first last result ∧
        (∀ x ∈ first.tail ++ last.tail, ∃ time f, x.answer = some (time, .error f) ∧ f.isRetryable) ∧
        first.length ≤ c.policy.maxRetries + 1 ∧ last.length ≤ c.policy.maxRetries + 1 ∧
        first.length + last.length ≤ 2 * (c.policy.maxRetries + 1) ∧
        Journal.Apart i earlier before ∧
        (Journal.exchanges earlier).length =
          (Journal.exchanges before).length + (first.length + last.length)) ∧
    ∀ t ∈ s.tasks, ∀ r wake, t.stage = .resting r wake →
      ∃ asked time f earlier first draw,
        Journal.rounds t.id s.world.journal =
          ⟨r.grant, asked, some (time, .error f)⟩ :: earlier ++ first ∧
        Block p c.policy r.grant (⟨r.grant, asked, some (time, .error f)⟩ :: earlier) ∧
        wake = time.timer (c.policy.restAfter f earlier.length draw) ∧
        c.policy.restAfter f earlier.length draw ≤ longestPause := by
  obtain ⟨hledger, hcourse⟩ := (course_kept seed).reaches hr (.start date limiter peer) (by simp)
  refine ⟨hledger.counted, hledger.stored, ?_, ?_⟩
  · intro time i result earlier hs
    obtain ⟨first, last, before, hrounds, hshape, hapart⟩ := hledger.settled time i result earlier hs
    have hcount := hapart.count
    rw [hrounds, List.length_append, Nat.add_comm last.length] at hcount
    have hfirst := hshape.length_first
    have hlast := hshape.length_last
    refine ⟨first, last, before, hrounds, hshape, hshape.retried, hfirst, hlast, ?_, hapart, hcount⟩
    omega
  · intro t ht r wake hs
    have hunder := (hcourse t ht).inside (by rw [hs]; rfl)
    rw [hs] at hunder
    obtain ⟨r', first, last, hrounds, -, hstands, -⟩ := hunder.shape
    cases hstands with
    | rests peer hblock hf hm hn =>
      exact ⟨_, _, _, _, first, _, hrounds, hblock, rfl, c.policy.restAfter_le _ _ _⟩

def renewal? : Entry → Option (Instant × Nat × Credential)
  | ⟨time, .refreshed i (.ok credential)⟩ => some (time, i, credential)
  | _ => none

theorem renewal?_eq {e : Entry} {time : Instant} {i : Nat} {credential : Credential}
    (h : renewal? e = some (time, i, credential)) : e = ⟨time, .refreshed i (.ok credential)⟩ := by
  unfold renewal? at h
  split at h <;> cases h
  rfl

theorem renewed_at {journal : List Entry} {n i : Nat} {time : Instant} {credential : Credential}
    (h : (journal[n]?).bind renewal? = some (time, i, credential)) :
    ⟨time, .refreshed i (.ok credential)⟩ :: journal.drop (n + 1) <:+ journal := by
  obtain ⟨e, hr, hj⟩ := entry_at h
  rw [renewal?_eq hr] at hj
  exact ⟨journal.take n, hj.symm⟩

/-- A token endpoint that is out of order, rejects what it is given next, and then wants to be left alone
for two hours. -/
def fickle : Peer Nat where
  send _ n := (⟨.zero, .error (.internal "no service")⟩, n)
  exchange _ n := (⟨.zero,
    if n = 0 then .error (.api 503 "out of order")
    else if n = 1 then .error (.authentication (some 400) "revoked")
    else if n = 2 then .error (.rateLimited (some (.ofSeconds 7200)) "busy")
    else .ok .fresh⟩, n + 1)
  draw n := (0, n)

/-- With one retry, as many exchanges as there can be. -/
theorem refresh_in_blocks_fickle : ∃ (s : Traffic Nat) (earlier : List Entry)
    (first last : List Round) (time : Instant) (credential : Credential),
    Reaches fickle (Setup.plain 1)
      ⟨.start (.ofNanos 0) (.ofQuota .standard) (some ⟨"old", "Bearer", .ofNanos 0, some "token"⟩) 0, []⟩
      s ∧
    ⟨time, .refreshed 0 (.ok credential)⟩ :: earlier <:+ s.world.journal ∧
    Journal.rounds 0 earlier = last ++ first ∧
    Refreshed fickle (Setup.plain 1) (some "token") first last (.ok credential) ∧
    first.length = 2 ∧ last.length = 2 ∧ s.world.exchanges = 4 := by
  let seed : Credential := ⟨"old", "Bearer", .ofNanos 0, some "token"⟩
  have hrun : ((Schedule.ofOrders (World.start (.ofNanos 0) (.ofQuota .standard) (some seed) 0) 1
        [⟨.credential, none⟩]).run fickle (Setup.plain 1) 20).toOption.map (fun s =>
          ((s.world.journal[1]?).bind renewal?, Journal.stored (some seed) (s.world.journal.drop 2),
            (Journal.rounds 0 (s.world.journal.drop 2)).length, s.world.exchanges)) =
      some (some (⟨3600001000000⟩, 0, .fresh), some seed, 4, 4) := by decide +kernel
  obtain ⟨s, hreach, hjournal⟩ := reaches_of_read hrun
  simp only [Prod.mk.injEq] at hjournal
  obtain ⟨hrenewed, hstored, hrounds, hexchanges⟩ := hjournal
  obtain ⟨-, -, hblocks, -⟩ := refresh_in_blocks hreach
  obtain ⟨first, last, before, hsplit, hshape, -, hfirst, hlast, -⟩ :=
    hblocks _ _ _ _ (renewed_at hrenewed)
  rw [hsplit, List.length_append] at hrounds
  rw [hstored] at hshape
  change first.length ≤ 2 at hfirst
  change last.length ≤ 2 at hlast
  exact ⟨⟨s.world, s.tasks⟩, _, first, last, _, _, hreach, renewed_at hrenewed, hsplit, hshape,
    by omega, by omega, hexchanges⟩

end Traffic

end CatalogClient
