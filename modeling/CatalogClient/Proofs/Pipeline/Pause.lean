import CatalogClient.Proofs.Pipeline.Budget
/-!
Pauses that the service asks for. A call that was told to slow down pauses the limiter for everybody, as
long as it has a retry left; one that gives up keeps the pause to itself.
-/

namespace CatalogClient

namespace Response

theorem retryAfter?_le {a : Response} {d : Span} (h : a.retryAfter? = some d) :
    d ≤ Response.longestPause := by
  obtain ⟨value, -, hp⟩ := Option.bind_eq_some_iff.mp h
  unfold pause? at hp
  obtain ⟨x, -, hp⟩ := Option.bind_eq_some_iff.mp hp
  split at hp
  · cases hp
  · split at hp
    · cases hp
      exact Nat.le_refl _
    · cases hp
      exact Span.min_le_right _ _

theorem toFailure_slow {a : Response} (h : a.status = 429) (path : String) :
    ∃ m, a.toFailure path = .rateLimited a.retryAfter? m := by
  simp [toFailure, h]

theorem outcome_slow {a : Response} (h : a.status = 429) {path : String} {f : Failure}
    (hf : RetryPolicy.outcome (.ok a) path = .error f) :
    ∃ m, f = .rateLimited a.retryAfter? m := by
  rcases RetryPolicy.outcome_error hf with he | ⟨b, he, -, rfl⟩
  · cases he
  · cases he
    exact toFailure_slow h path

end Response

namespace Span

theorem min_eq_left {a b : Span} (h : a ≤ b) : min a b = a := by
  refine eq_of_nanos ?_
  rw [nanos_min]
  exact Nat.min_eq_left h

end Span

namespace Journal

def mark? (e : Entry) : Option (Instant × LimiterMark) :=
  match e.event with
  | .granted _ => some (e.time, .granted)
  | .penalized _ d => some (e.time, .paused d)
  | _ => none

/-- What a journal tells of the limiter, the earliest first. -/
def marks (journal : List Entry) : LimiterHistory := journal.reverse.filterMap mark?

theorem marks_append (es journal : List Entry) :
    marks (es ++ journal) = marks journal ++ marks es := by
  simp [marks]

/-- Neither a slot nor a pause nor an answer. -/
def calm : Event → Bool
  | .granted _ | .penalized .. | .answered .. => false
  | _ => true

theorem marks_of_calm {events : List Event} (h : events.all calm) (now : Instant) :
    marks (events.map (⟨now, ·⟩)) = [] := by
  refine List.filterMap_eq_nil_iff.mpr fun e he => ?_
  obtain ⟨event, hevent, rfl⟩ := List.mem_map.mp (List.mem_reverse.mp he)
  have hcalm := List.all_eq_true.mp h event hevent
  cases event <;> first | rfl | cases hcalm

/-- The retries that a call has made from its budget when its last try is answered. -/
def retriesBefore (i : Nat) (earlier : List Entry) : Nat :=
  (tries i earlier).tail.countP (!·.rejected)

/-- An answer that asks for a pause is followed by the pause exactly if the call has a retry left. -/
def Imposes (m : Nat) (journal : List Entry) : Prop :=
  ∀ later time i a d earlier, journal = later ++ ⟨time, .answered i (.ok a)⟩ :: earlier →
    a.status = 429 → a.retryAfter? = some d →
    (retriesBefore i earlier < m ↔ ∃ rest, later = rest ++ [⟨time, .penalized i d⟩])

theorem Imposes.cons {m : Nat} {e : Entry} {journal : List Entry} (h : Imposes m journal)
    (hp : ∀ i d, e.event ≠ .penalized i d)
    (ha : ∀ i a, e.event = .answered i (.ok a) → a.status = 429 → m ≤ retriesBefore i journal) :
    Imposes m (e :: journal) := by
  intro later time i a d earlier hj hs hd
  cases later with
  | nil =>
    obtain ⟨rfl, rfl⟩ := List.cons.inj hj
    have hle := ha i a rfl hs
    simp only [List.nil_eq, List.append_eq_nil_iff, List.cons_ne_nil, and_false, exists_false,
      iff_false]
    exact Nat.not_lt.mpr hle
  | cons e' later =>
    obtain ⟨rfl, hold⟩ := List.cons.inj hj
    rw [h later time i a d earlier hold hs hd]
    constructor
    · rintro ⟨rest, rfl⟩
      exact ⟨e :: rest, rfl⟩
    · rintro ⟨rest, hrest⟩
      cases rest with
      | nil =>
        obtain ⟨rfl, -⟩ := List.cons.inj hrest
        exact absurd rfl (hp i d)
      | cons e' rest => exact ⟨rest, (List.cons.inj hrest).2⟩

theorem Imposes.calm {m : Nat} {events : List Event} {journal : List Entry}
    (h : Imposes m journal) (he : events.all Journal.calm) (now : Instant) :
    Imposes m (events.map (⟨now, ·⟩) ++ journal) := by
  induction events with
  | nil => exact h
  | cons event events ih =>
    obtain ⟨hcalm, hrest⟩ := (Bool.and_eq_true _ _).mp he
    refine (ih hrest).cons ?_ ?_
    · rintro i d rfl
      cases hcalm
    · rintro i a rfl
      cases hcalm

theorem Imposes.pause {m : Nat} {journal : List Entry} (h : Imposes m journal) {i : Nat}
    {result : Except Failure Response} {delay : Span} {now : Instant}
    (hm : retriesBefore i journal < m)
    (hd : ∀ a d, result = .ok a → a.status = 429 → a.retryAfter? = some d → delay = d) :
    Imposes m (⟨now, .penalized i delay⟩ :: ⟨now, .answered i result⟩ :: journal) := by
  intro later time j a d earlier hj hs hret
  match later with
  | [] => cases hj
  | [e] =>
    cases hj
    cases hd a d rfl hs hret
    exact iff_of_true hm ⟨[], rfl⟩
  | e :: e' :: later =>
    obtain ⟨rfl, htail⟩ := List.cons.inj hj
    obtain ⟨rfl, hold⟩ := List.cons.inj htail
    rw [h later time j a d earlier hold hs hret]
    constructor
    · rintro ⟨rest, rfl⟩
      exact ⟨_ :: _ :: rest, rfl⟩
    · rintro ⟨rest, hrest⟩
      match rest with
      | [] => cases hrest
      | [x] => cases hrest
      | x :: y :: rest =>
        obtain ⟨-, hrest⟩ := List.cons.inj hrest
        exact ⟨rest, (List.cons.inj hrest).2⟩

end Journal

namespace Task

variable {σ : Type} {p : Peer σ} {c : Setup} {w w' : World σ} {t t' : Task}

/-- What a step of a task means for the pauses of the limiter. -/
inductive Move.Pauses (c : Setup) (w w' : World σ) (t : Task) : Prop
  | calm (events : List Event) (he : events.all Journal.calm)
    (hj : w'.journal = events.map (⟨w.now, ·⟩) ++ w.journal)
    (hl : w'.limiter = w.limiter ∨ ∃ d, w.limiter.tryGrant w.now = .ok (.refused d, w'.limiter))
  | grants (hl : w.limiter.tryGrant w.now = .ok (.granted, w'.limiter))
    (hj : w'.journal = ⟨w.now, .granted t.id⟩ :: w.journal)
  | hears {credential : Credential} {n : Nat} {sent wake : Instant}
    {answer : Except Failure Response} (events : List Event) (he : events.all Journal.calm)
    (hs : t.stage = .awaitingAnswer credential n sent wake answer)
    (hg : ∃ r url, t.goal = .call r url)
    (hj : w'.journal = events.map (⟨w.now, ·⟩) ++
      ⟨w.now, .answered t.id (w.received n sent answer)⟩ :: w.journal)
    (hl : w'.limiter = w.limiter)
    (hm : ∀ a, w.received n sent answer = .ok a → a.status = 429 →
      c.policy.maxRetries ≤ t.retry.retries)
  | slows {credential : Credential} {n : Nat} {sent wake : Instant}
    {answer : Except Failure Response} {delay : Span}
    (hs : t.stage = .awaitingAnswer credential n sent wake answer)
    (hg : ∃ r url, t.goal = .call r url)
    (hj : w'.journal = ⟨w.now, .penalized t.id delay⟩ ::
      ⟨w.now, .answered t.id (w.received n sent answer)⟩ :: w.journal)
    (hl : w'.limiter = w.limiter.penalize w.now delay)
    (hm : t.retry.retries < c.policy.maxRetries)
    (hd : ∀ a d, w.received n sent answer = .ok a → a.status = 429 → a.retryAfter? = some d →
      delay = d)

theorem Move.pauses (h : t.Move p c w w' t') : Move.Pauses c w w' t := by
  cases h with
  | stray | lined | refresh | idle => exact .calm [] rfl rfl (.inl rfl)
  | refused ha hl => exact .calm [] rfl rfl (.inr ⟨_, hl⟩)
  | granted ha hl => exact .grants hl rfl
  | found | shared | sharedFailure | exchange | rest | fallBack | send =>
    exact .calm [_] rfl rfl (.inl rfl)
  | issued | refreshFailed => exact .calm [_, _, _] rfl rfl (.inl rfl)
  | succeed hs hw hg ha hok =>
    refine .hears [] rfl hs ⟨_, _, hg⟩ ?_ rfl ?_
    · rw [ha]
      rfl
    · intro a hreceived hslow
      cases ha.symm.trans hreceived
      simp [Response.isSuccess, Response.isSuccessStatus, hslow] at hok
  | fail hs hw hg hf hd =>
    refine .hears [] rfl hs ⟨_, _, hg⟩ rfl rfl ?_
    intro a hreceived hslow
    rw [hreceived] at hf
    obtain ⟨m, rfl⟩ := Response.outcome_slow hslow hf
    exact RetryPolicy.retries_of_fail hd rfl (.inr rfl)
  | reject hs hw hg hf ha hr =>
    refine .hears [.invalidated _] rfl hs ⟨_, _, hg⟩ rfl rfl ?_
    intro a hreceived hslow
    rw [hreceived] at hf
    obtain ⟨m, rfl⟩ := Response.outcome_slow hslow hf
    obtain ⟨status, m', he⟩ := ha
    cases he
  | slow hs hw hg hf hc hr hd =>
    refine .slows hs ⟨_, _, hg⟩ rfl rfl hr ?_
    intro a d hreceived hslow hret
    rw [hreceived] at hf
    obtain ⟨m, rfl⟩ := Response.outcome_slow hslow hf
    rw [hd]
    simp only [Failure.retryAfter?, hret, Option.getD_some]
    exact Span.min_eq_left (Response.retryAfter?_le hret)
  | retry hs hw hg hf hc hr hd =>
    refine .hears [] rfl hs ⟨_, _, hg⟩ rfl rfl ?_
    intro a hreceived hslow
    rw [hreceived] at hf
    obtain ⟨m, rfl⟩ := Response.outcome_slow hslow hf
    rcases hc with hc | hc <;> cases hc

end Task

namespace Traffic

variable {σ : Type} {p : Peer σ} {c : Setup} {q : Quota}

/-- The limiter knows of all slots and pauses in the journal, and pauses are imposed as retries allow. -/
structure Pausing (m : Nat) (w : World σ) : Prop where
  known : ∃ h, w.limiter.Knows h w.now ∧ (Journal.marks w.journal).Sublist h
  imposed : Journal.Imposes m w.journal

namespace Pausing

variable {m : Nat} {w w' : World σ} {t t' : Task}

theorem start (date : UtcTime) (credential : Option Credential) (peer : σ) :
    Pausing m (World.start date (.ofQuota q) credential peer) := by
  refine ⟨⟨[], .nothing q _, .refl _⟩, ?_⟩
  intro later time i a d earlier hj
  cases later <;> cases hj

theorem limit (h : Pausing m w) {a : LimiterAct} {mark : Option LimiterMark} {l : Limiter}
    (ha : w.limiter.act w.now a = .ok (mark, l)) : Pausing m { w with limiter := l } := by
  obtain ⟨hist, hk, hsub⟩ := h.known
  exact ⟨⟨_, hk.act ha, hsub.trans (List.sublist_append_left _ _)⟩, h.imposed⟩

theorem calm (h : Pausing m w) {events : List Event} (he : events.all Journal.calm)
    (hj : w'.journal = events.map (⟨w.now, ·⟩) ++ w.journal) (hnow : w'.now = w.now)
    (hl : w'.limiter = w.limiter) : Pausing m w' := by
  refine ⟨?_, hj ▸ h.imposed.calm he w.now⟩
  rw [hl, hnow, hj, Journal.marks_append, Journal.marks_of_calm he, List.append_nil]
  exact h.known

theorem grants (h : Pausing m w) {i : Nat}
    (hl : w.limiter.tryGrant w.now = .ok (.granted, w'.limiter))
    (hj : w'.journal = ⟨w.now, .granted i⟩ :: w.journal) (hnow : w'.now = w.now) :
    Pausing m w' := by
  obtain ⟨hist, hk, hsub⟩ := h.known
  have hmarks : Journal.marks w'.journal = Journal.marks w.journal ++ [(w.now, .granted)] := by
    rw [hj]
    exact Journal.marks_append [⟨w.now, .granted i⟩] w.journal
  refine ⟨⟨hist ++ [(w.now, .granted)], ?_, ?_⟩, ?_⟩
  · rw [hnow]
    exact hk.tryGrant hl
  · rw [hmarks]
    exact hsub.append (.refl _)
  · rw [hj]
    exact h.imposed.cons (by simp) (by simp)

/-- An entry for an answer, where no pause is imposed with it. -/
theorem hears (h : Pausing m w) {i : Nat} {result : Except Failure Response}
    (hm : ∀ a, result = .ok a → a.status = 429 → m ≤ Journal.retriesBefore i w.journal) :
    Pausing m (w.note (.answered i result)) := by
  refine ⟨?_, h.imposed.cons (by simp) ?_⟩
  · have hmarks : Journal.marks (w.note (.answered i result)).journal =
        Journal.marks w.journal ++ [] := Journal.marks_append [⟨w.now, .answered i result⟩] _
    rw [hmarks, List.append_nil]
    exact h.known
  · intro j a he hslow
    cases he
    exact hm a rfl hslow

theorem slows (h : Pausing m w) {i : Nat} {result : Except Failure Response} {delay : Span}
    (hl : w'.limiter = w.limiter.penalize w.now delay)
    (hj : w'.journal = ⟨w.now, .penalized i delay⟩ :: ⟨w.now, .answered i result⟩ :: w.journal)
    (hnow : w'.now = w.now) (hm : Journal.retriesBefore i w.journal < m)
    (hd : ∀ a d, result = .ok a → a.status = 429 → a.retryAfter? = some d → delay = d) :
    Pausing m w' := by
  obtain ⟨hist, hk, hsub⟩ := h.known
  have hmarks : Journal.marks w'.journal = Journal.marks w.journal ++ [(w.now, .paused delay)] := by
    rw [hj]
    exact Journal.marks_append [⟨w.now, .penalized i delay⟩, ⟨w.now, .answered i result⟩] w.journal
  refine ⟨⟨hist ++ [(w.now, .paused delay)], ?_, ?_⟩, ?_⟩
  · rw [hl, hnow]
    exact hk.penalize delay
  · rw [hmarks]
    exact hsub.append (.refl _)
  · rw [hj]
    exact h.imposed.pause hm hd

theorem move (h : Pausing c.policy.maxRetries w)
    (ht : ∀ r url, t.goal = .call r url → Spending p c r t (Journal.course t.id w.journal))
    (hm : t.Move p c w w' t') : Pausing c.policy.maxRetries w' := by
  have hretries : ∀ {credential n sent wake answer},
      t.stage = .awaitingAnswer credential n sent wake answer → (∃ r url, t.goal = .call r url) →
      Journal.retriesBefore t.id w.journal = t.retry.retries := by
    rintro credential n sent wake answer hs ⟨r, url, hg⟩
    obtain ⟨a, rest, -, htries, hspent, -⟩ := (ht r url hg).hear hs answer
    rw [Journal.retriesBefore, htries]
    exact hspent.others
  cases hm.pauses with
  | calm events he hj hl =>
    rcases hl with hl | ⟨d, hl⟩
    · exact h.calm he hj hm.now_eq hl
    · have ha : w.limiter.act w.now .ask = .ok (none, w'.limiter) := by
        simp [Limiter.act, hl]
      exact (h.limit ha).calm he hj hm.now_eq rfl
  | grants hl hj => exact h.grants hl hj hm.now_eq
  | hears events he hs hg hj hl hlast =>
    refine (h.hears (i := t.id) fun a hreceived hslow => ?_).calm he hj hm.now_eq hl
    rw [hretries hs hg]
    exact hlast a hreceived hslow
  | slows hs hg hj hl hleft hd =>
    refine h.slows hl hj hm.now_eq ?_ hd
    rw [hretries hs hg]
    exact hleft

end Pausing

theorem pausing_kept : Kept p c
    (fun w => (Accounted p w ∧ w.Recorded) ∧ Pausing c.policy.maxRetries w)
    (fun w t => Explained p w t ∧ t.id < w.tasks ∧
      ∀ r url, t.goal = .call r url → Spending p c r t (Journal.course t.id w.journal)) := by
  have k := spending_kept (p := p) (c := c)
  refine ⟨?_, ?_, ?_, ?_, ?_, ?_, ?_, ?_⟩
  · rintro w goal deadline ⟨hi, h⟩
    obtain ⟨hi', hnew, hold⟩ := k.begin w goal deadline hi
    exact ⟨⟨hi', h.known, h.imposed⟩, hnew, hold⟩
  · rintro w t w' t' ⟨hi, h⟩ hj hm
    obtain ⟨hi', hnew, hold⟩ := k.move w t w' t' hi hj hm
    exact ⟨⟨hi', h.move hj.2.2 hm⟩, hnew, hold⟩
  · rintro w t ⟨hi, h⟩ hj hu hd
    obtain ⟨hi', hnew, hold⟩ := k.expire w t hi hj hu hd
    have hentry : (t.expire w).1.journal = [Event.expired t.id].map (⟨w.now, ·⟩) ++ w.journal := rfl
    exact ⟨⟨hi', h.calm rfl hentry rfl rfl⟩, hnew, hold⟩
  · rintro w t ⟨hi, h⟩ hj
    obtain ⟨hi', hold⟩ := k.drop w t hi hj
    exact ⟨⟨hi', h.known, h.imposed⟩, hold⟩
  · rintro w time ⟨hi, h⟩ hle
    obtain ⟨hi', hold⟩ := k.elapse w time hi hle
    obtain ⟨hist, hk, hsub⟩ := h.known
    exact ⟨⟨hi', ⟨hist, hk.later hle, hsub⟩, h.imposed⟩, hold⟩
  · rintro w date ⟨hi, h⟩
    obtain ⟨hi', hold⟩ := k.date w date hi
    exact ⟨⟨hi', h.known, h.imposed⟩, hold⟩
  · rintro w a mark l ⟨hi, h⟩ ha
    obtain ⟨hi', hold⟩ := k.limit w a mark l hi ha
    exact ⟨⟨hi', h.limit ha⟩, hold⟩
  · rintro w token ⟨hi, h⟩
    obtain ⟨hi', hold⟩ := k.invalidate w token hi
    have hentry : (w.invalidate token).journal =
      [Event.invalidated token].map (⟨w.now, ·⟩) ++ w.journal := rfl
    exact ⟨⟨hi', h.calm rfl hentry rfl rfl⟩, hold⟩

theorem Pausing.heeded {m : Nat} {w : World σ} (h : Pausing m w) {rest earlier : List Entry}
    {time : Instant} {i : Nat} {d : Span}
    (hj : w.journal = rest ++ ⟨time, .penalized i d⟩ :: earlier)
    (hd : d ≤ Response.longestPause) (hin : time.nanos + d.nanos < Instant.horizon) {x : Entry}
    (hx : x ∈ w.journal) {j : Nat} (hg : x.event = .granted j) :
    ¬ (time < x.time ∧ x.time.nanos < time.nanos + d.nanos) := by
  obtain ⟨hist, hk, hsub⟩ := h.known
  have hmarks : Journal.marks w.journal =
      Journal.marks earlier ++ (time, .paused d) :: Journal.marks rest := by
    rw [hj, Journal.marks_append, List.append_cons]
    exact congrArg (· ++ Journal.marks rest)
      (Journal.marks_append [⟨time, .penalized i d⟩] earlier)
  rw [hmarks] at hsub
  have hmem : ∀ {es : List Entry}, x ∈ es → (x.time, .granted) ∈ Journal.marks es := by
    intro es hx
    refine List.mem_filterMap.mpr ⟨x, List.mem_reverse.mpr hx, ?_⟩
    simp [Journal.mark?, hg]
  rintro ⟨hlt, hbefore⟩
  rw [hj] at hx
  rcases List.mem_append.mp hx with hx | hx
  · have hheeded := List.pairwise_append.mp (hk.heeded.sublist hsub)
    have hpause : LimiterHistory.pauseEnd time d = time.nanos + d.nanos := by
      have hday : d ≤ Limiter.longestPenalty := Nat.le_trans hd (by decide)
      rw [LimiterHistory.pauseEnd, Span.min_eq_left hday]
    have hle := (List.pairwise_cons.mp hheeded.2.1).1 _ (hmem hx) d rfl rfl (hpause ▸ hin)
    simp only [hpause] at hle
    omega
  · rcases List.mem_cons.mp hx with rfl | hx
    · cases hg
    · have hordered := hk.ordered.sublist (hsub.map (·.1))
      rw [List.map_append, List.map_cons] at hordered
      have hle : x.time ≤ time := (List.pairwise_append.mp hordered).2.2 x.time
        (List.mem_map_of_mem (hmem hx)) time List.mem_cons_self
      exact Nat.lt_irrefl _ (Nat.lt_of_lt_of_le hlt hle)

/-- A call that was told to slow down imposes the pause on all callers exactly if it has a retry left, and
then nobody gets a slot before the pause is over. -/
theorem slow_answer_pauses {date : UtcTime} {credential : Option Credential} {peer : σ}
    {s : Traffic σ} (hr : Reaches p c ⟨.start date (.ofQuota q) credential peer, []⟩ s)
    {later earlier : List Entry} {time : Instant} {i : Nat} {a : Response} {d : Span}
    (hj : s.world.journal = later ++ ⟨time, .answered i (.ok a)⟩ :: earlier)
    (hs : a.status = 429) (hd : a.retryAfter? = some d) :
    (Journal.retriesBefore i earlier < c.policy.maxRetries ↔
      ∃ rest, later = rest ++ [⟨time, .penalized i d⟩]) ∧
    (Journal.retriesBefore i earlier < c.policy.maxRetries →
      time.nanos + d.nanos < Instant.horizon → ∀ e ∈ s.world.journal, ∀ j,
      e.event = .granted j → ¬ (time < e.time ∧ e.time.nanos < time.nanos + d.nanos)) := by
  obtain ⟨⟨-, hpausing⟩, -⟩ := pausing_kept.reaches hr
    ⟨⟨accounted_start p _ _ _ _, recorded_start _ _ _ _⟩, .start date credential peer⟩ (by simp)
  have hiff := hpausing.imposed later time i a d earlier hj hs hd
  refine ⟨hiff, ?_⟩
  intro hleft hin e he j hg
  obtain ⟨rest, rfl⟩ := hiff.mp hleft
  rw [List.append_assoc] at hj
  exact hpausing.heeded hj (Response.retryAfter?_le hd) hin he hg

/-- A service that tells every caller to come back in two seconds. -/
def busy : Peer Unit where
  send _ _ := (⟨.zero, .ok ⟨429, [("retry-after", "2")], [], .zero, 1⟩⟩, ())
  exchange _ _ := (⟨.zero, .ok ⟨"token", 3600, none, none, none⟩⟩, ())
  draw _ := (0, ())

def slowDown : Response := ⟨429, [("retry-after", "2")], [], .zero, 1⟩

theorem slowDown_retryAfter : slowDown.retryAfter? = some (.ofSeconds 2) := by decide +kernel

def answer? : Entry → Option (Instant × Nat × Response)
  | ⟨time, .answered i (.ok a)⟩ => some (time, i, a)
  | _ => none

theorem answer?_eq {e : Entry} {time : Instant} {i : Nat} {a : Response}
    (h : answer? e = some (time, i, a)) : e = ⟨time, .answered i (.ok a)⟩ := by
  unfold answer? at h
  split at h <;> cases h
  rfl

theorem slow_answer_pauses_retried : ∃ (s : Traffic Unit) (later earlier : List Entry),
    Reaches busy (Setup.plain 1) ⟨.start (.ofNanos 0) (.ofQuota everySecond) none (), []⟩ s ∧
    s.world.journal = later ++ ⟨⟨0⟩, .answered 0 (.ok slowDown)⟩ :: earlier ∧
    slowDown.status = 429 ∧ slowDown.retryAfter? = some (.ofSeconds 2) ∧
    (∃ rest, later = rest ++ [⟨⟨0⟩, .penalized 0 (.ofSeconds 2)⟩]) ∧
    ∀ e ∈ s.world.journal, ∀ j, e.event = .granted j →
      ¬ ((⟨0⟩ : Instant) < e.time ∧ e.time.nanos < (Span.ofSeconds 2).nanos) := by
  have hrun : (pair.run busy (Setup.plain 1) 80).toOption.map (fun s =>
      ((s.world.journal[14]?).bind answer?, Journal.retriesBefore 0 (s.world.journal.drop 15))) =
      some (some (⟨0⟩, 0, slowDown), 0) := by decide +kernel
  obtain ⟨s, hs, hjournal⟩ := Option.map_eq_some_iff.mp hrun
  obtain ⟨hanswer, hretries⟩ := Prod.mk.inj hjournal
  obtain ⟨e, he, hanswer⟩ := Option.bind_eq_some_iff.mp hanswer
  obtain ⟨hlt, he⟩ := List.getElem?_eq_some_iff.mp he
  have hok : pair.run busy (Setup.plain 1) 80 = .ok s := by
    cases hr : pair.run busy (Setup.plain 1) 80 <;> simp_all [Except.toOption]
  have hj : s.world.journal = s.world.journal.take 14 ++
      ⟨⟨0⟩, .answered 0 (.ok slowDown)⟩ :: s.world.journal.drop 15 := by
    rw [← answer?_eq hanswer, ← he, List.cons_getElem_drop_succ, List.take_append_drop]
  have hreach := ofOrders_reaches hok
  have hleft : Journal.retriesBefore 0 (s.world.journal.drop 15) < 1 := by
    rw [hretries]
    exact Nat.zero_lt_one
  obtain ⟨himposed, hpause⟩ := slow_answer_pauses hreach hj rfl slowDown_retryAfter
  refine ⟨⟨s.world, s.tasks⟩, _, _, hreach, hj, rfl, slowDown_retryAfter, himposed.mp hleft, ?_⟩
  intro e he j hg
  have hfree := hpause hleft (by decide) e he j hg
  simpa using hfree

/-- The first of two calls gives up when it is told to slow down, and the second gets its slot at once. -/
theorem slow_answer_unheeded : ∃ (s : Traffic Unit) (later earlier : List Entry),
    Reaches busy (Setup.plain 0) ⟨.start (.ofNanos 0) (.ofQuota everySecond) none (), []⟩ s ∧
    s.world.journal = later ++ ⟨⟨0⟩, .answered 0 (.ok slowDown)⟩ :: earlier ∧
    slowDown.status = 429 ∧ slowDown.retryAfter? = some (.ofSeconds 2) ∧
    ∃ e ∈ s.world.journal, e.event = .granted 1 ∧
      (⟨0⟩ : Instant) < e.time ∧ e.time.nanos < (Span.ofSeconds 2).nanos := by
  have hrun : ∃ s later e earlier, pair.run busy (Setup.plain 0) 60 = .ok s ∧
      s.world.journal = later ++ e :: ⟨⟨0⟩, .answered 0 (.ok slowDown)⟩ :: earlier ∧
      e = ⟨⟨1000000000⟩, .granted 1⟩ := ⟨_, [_, _, _], _, _, rfl, rfl, rfl⟩
  obtain ⟨s, later, e, earlier, hs, hj, rfl⟩ := hrun
  refine ⟨⟨s.world, s.tasks⟩, later ++ [⟨⟨1000000000⟩, .granted 1⟩], earlier, ofOrders_reaches hs,
    ?_, rfl, slowDown_retryAfter, ⟨⟨1000000000⟩, .granted 1⟩, ?_, rfl, by decide, by decide⟩
  · rw [List.append_assoc]
    exact hj
  · rw [hj]
    simp

end Traffic

end CatalogClient
