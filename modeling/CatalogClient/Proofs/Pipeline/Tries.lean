import CatalogClient.Pipeline.Journal
import CatalogClient.Proofs.Pipeline.Traffic
/-!
The attempts of one task as the journal tells them, and what each of its steps adds to them.
-/

namespace CatalogClient

/-- An attempt, and what the task heard of it. -/
structure Try where
  attempt : Attempt
  result : Option (Except Failure Response)

def Event.task? : Event → Option Nat
  | .granted i | .sent i _ | .answered i _ | .penalized i _ | .exchanged i _ | .issued i _
  | .refreshed i _ | .obtained i _ | .expired i => some i
  | .invalidated _ => none

namespace Journal

def hear (result : Except Failure Response) : List Try → List Try
  | ⟨a, none⟩ :: tries => ⟨a, some result⟩ :: tries
  | tries => tries

/-- The attempts of a task, the latest first. -/
def tries (i : Nat) : List Entry → List Try
  | [] => []
  | ⟨_, .sent j a⟩ :: journal => if j = i then ⟨a, none⟩ :: tries i journal else tries i journal
  | ⟨_, .answered j result⟩ :: journal =>
    if j = i then hear result (tries i journal) else tries i journal
  | _ :: journal => tries i journal

theorem tries_of_ne {i : Nat} {e : Entry} {journal : List Entry} (h : e.event.task? ≠ some i) :
    tries i (e :: journal) = tries i journal := by
  obtain ⟨time, event⟩ := e
  cases event with
  | sent j a => exact if_neg fun hj => h (by rw [← hj]; rfl)
  | answered j result => exact if_neg fun hj => h (by rw [← hj]; rfl)
  | _ => rfl

/-- What a journal tells of a task takes only the entries of that task. -/
def Own {α : Type} (view : Nat → List Entry → α) : Prop :=
  ∀ i e journal, e.event.task? ≠ some i → view i (e :: journal) = view i journal

theorem own_tries : Own tries := fun _ _ _ h => tries_of_ne h

theorem Own.append {α : Type} {view : Nat → List Entry → α} (hv : Own view) {i : Nat}
    {es journal : List Entry} (h : ∀ e ∈ es, e.event.task? ≠ some i) :
    view i (es ++ journal) = view i journal := by
  induction es with
  | nil => rfl
  | cons e es ih =>
    rw [List.cons_append, hv _ _ _ (h e List.mem_cons_self)]
    exact ih fun e he => h e (List.mem_cons_of_mem _ he)

end Journal

namespace Response

def stamped (elapsed : Span) (attempt : Nat) (a : Response) : Response :=
  { a with elapsed := elapsed, attempt := attempt }

end Response

namespace World

variable {σ : Type}

/-- From the first state to the second the journal gains the event. -/
def Notes (w w' : World σ) (e : Event) : Prop :=
  ∃ news time, w'.journal = news ++ w.journal ∧ ⟨time, e⟩ ∈ news

/-- The journal tells only of tasks that have begun. -/
def Recorded (w : World σ) : Prop := ∀ e ∈ w.journal, ∀ i, e.event.task? = some i → i < w.tasks

theorem Recorded.view_eq {α : Type} {view : Nat → List Entry → α} (hv : Journal.Own view)
    {w : World σ} (h : w.Recorded) : view w.tasks w.journal = view w.tasks [] := by
  rw [← List.append_nil w.journal]
  refine hv.append ?_
  intro e he ht
  exact Nat.lt_irrefl _ (h e he _ ht)

theorem Recorded.of_entries {w w' : World σ} (h : w.Recorded) (hn : w'.tasks = w.tasks)
    {es : List Entry} (hj : w'.journal = es ++ w.journal)
    (hes : ∀ e ∈ es, ∀ i, e.event.task? = some i → i < w.tasks) : w'.Recorded := by
  intro e he i hi
  rw [hj] at he
  rw [hn]
  rcases List.mem_append.mp he with he | he
  · exact hes e he i hi
  · exact h e he i hi

end World

namespace Task

variable {σ : Type} {p : Peer σ} {c : Setup} {w w' : World σ} {t t' : Task}

def Awaits (t : Task) (answer : Except Failure Response) : Prop :=
  ∃ credential attempt sent wake, t.stage = .awaitingAnswer credential attempt sent wake answer

theorem Move.journal_eq (h : t.Move p c w w' t') : ∃ events : List Event,
    w'.journal = events.map (⟨w.now, ·⟩) ++ w.journal ∧
    (∀ e ∈ events, e.task? = some t.id ∨ ∃ token, e = .invalidated token) ∧
    ∀ i answer, .issued i answer ∈ events → ∃ r wake, t.stage = .awaitingToken r wake answer := by
  cases h with
  | stray | lined | refresh | idle | refused => exact ⟨[], rfl, by simp, by simp⟩
  | granted | found | shared | sharedFailure | exchange | send | succeed | fail | retry =>
    exact ⟨[_], rfl, by simp [Event.task?], by simp⟩
  | reject | slow => exact ⟨[_, _], rfl, by simp [Event.task?], by simp⟩
  | issued hs => exact ⟨[_, _, _], rfl, by simp [Event.task?], by simp [hs]⟩
  | rest hs | fallBack hs => exact ⟨[_], rfl, by simp [Event.task?], by simp [hs]⟩
  | refreshFailed hs => exact ⟨[_, _, _], rfl, by simp [Event.task?], by simp [hs]⟩

theorem Move.view_other {α : Type} {view : Nat → List Entry → α} (hv : Journal.Own view)
    (h : t.Move p c w w' t') {i : Nat} (hne : i ≠ t.id) :
    view i w'.journal = view i w.journal := by
  obtain ⟨events, hj, hevents, -⟩ := h.journal_eq
  rw [hj]
  refine hv.append ?_
  intro e he ht
  obtain ⟨event, hevent, rfl⟩ := List.mem_map.mp he
  rcases hevents event hevent with hown | ⟨token, rfl⟩
  · exact hne (Option.some.inj (ht.symm.trans hown))
  · cases ht

/-- What a step of a call does to its attempts. -/
inductive Move.Tries (p : Peer σ) (c : Setup) (w w' : World σ) (t t' : Task) (r : Request)
    (url : Url) : Prop
  | quiet (hj : Journal.tries t.id w'.journal = Journal.tries t.id w.journal)
    (hs : ∀ answer, ¬ t.Awaits answer) (hs' : ∀ answer, ¬ t'.Awaits answer)
    (hd : ∀ o, t'.stage = .done o → ∃ f, o = .answer (.error f))
  | sends {authorization : String} {answer : Except Failure Response}
    (hj : Journal.tries t.id w'.journal =
      ⟨r.attempt url authorization c.timeout, none⟩ :: Journal.tries t.id w.journal)
    (hs : ∀ answer, ¬ t.Awaits answer) (hs' : t'.Awaits answer)
    (ha : ∃ peer, (p.send (r.attempt url authorization c.timeout) peer).1.answer = answer)
  | hears {answer : Except Failure Response} {elapsed : Span} {attempt : Nat}
    (hj : Journal.tries t.id w'.journal =
      Journal.hear (answer.map (.stamped elapsed attempt)) (Journal.tries t.id w.journal))
    (hs : t.Awaits answer) (hs' : ∀ answer, ¬ t'.Awaits answer)
    (hd : (∃ a, answer.map (.stamped elapsed attempt) = .ok a ∧ a.isSuccess ∧
        t'.stage = .done (.answer (.ok a))) ∨
      ∃ f, RetryPolicy.outcome (answer.map (.stamped elapsed attempt)) r.path = .error f ∧
        (t'.stage = .done (.answer (.error f)) ∨ t'.stage.outcome? = none ∧
          ((∃ status m, f = .authentication status m) ∨
            (c.policy.cause? r f).isSome)))

theorem obtained_ok {r : Request} {url : Url} (hg : t.goal = .call r url) (credential : Credential) :
    t.obtained (.ok credential) = .sending credential := by
  simp only [obtained, hg]

theorem obtained_error {r : Request} {url : Url} (hg : t.goal = .call r url) (f : Failure) :
    t.obtained (.error f) = .done (.answer (.error f)) := by
  simp only [obtained, hg]

theorem admitted_call {r : Request} {url : Url} (hg : t.goal = .call r url) :
    t.admitted = .seeking := by
  simp only [admitted, hg]

theorem Move.Tries.ofStages {r : Request} {url : Url} {stage stage' : Stage}
    (hj : Journal.tries t.id w'.journal = Journal.tries t.id w.journal) (hs : t.stage = stage)
    (hs' : t'.stage = stage')
    (hn : ∀ credential attempt sent wake answer,
      stage ≠ .awaitingAnswer credential attempt sent wake answer)
    (hn' : ∀ credential attempt sent wake answer,
      stage' ≠ .awaitingAnswer credential attempt sent wake answer)
    (hd : ∀ o, stage' = .done o → ∃ f, o = .answer (.error f)) :
    Move.Tries p c w w' t t' r url := by
  refine .quiet hj ?_ ?_ (hs' ▸ hd)
  · rintro answer ⟨credential, attempt, sent, wake, ha⟩
    exact hn _ _ _ _ _ (hs.symm.trans ha)
  · rintro answer ⟨credential, attempt, sent, wake, ha⟩
    exact hn' _ _ _ _ _ (hs'.symm.trans ha)

theorem Asks.not_awaits {now : Instant} (ha : t.Asks now) (answer : Except Failure Response) :
    ¬ t.Awaits answer := by
  rintro ⟨credential, attempt, sent, wake, hs⟩
  rcases ha with ⟨hs', -⟩ | ⟨wake', -, hs' | hs'⟩ <;> rw [hs] at hs' <;> cases hs'

theorem Move.tries (h : t.Move p c w w' t') {r : Request} {url : Url} (hg : t.goal = .call r url) :
    Move.Tries p c w w' t t' r url := by
  cases h with
  | stray hs hg' =>
    rw [hg] at hg'
    cases hg'
  | refused ha hl => exact .quiet rfl ha.not_awaits (by simp [Awaits]) (by simp)
  | granted ha hl =>
    refine .quiet rfl ha.not_awaits ?_ ?_
    · simp [Awaits, admitted_call hg]
    · simp [admitted_call hg]
  | found hs hu => exact .ofStages rfl hs (obtained_ok hg _) (by simp) (by simp) (by simp)
  | lined hs hu => exact .ofStages rfl hs rfl (by simp) (by simp) (by simp)
  | shared hs hh hu => exact .ofStages rfl hs (obtained_ok hg _) (by simp) (by simp) (by simp)
  | sharedFailure hs hh hu hgen hf =>
    exact .ofStages rfl hs (obtained_error hg _) (by simp) (by simp) (by simp)
  | refresh hs hh hu hgen => exact .ofStages rfl hs rfl (by simp) (by simp) (by simp)
  | exchange he =>
    rcases he with hs | ⟨wake, -, hs⟩
    · exact .ofStages rfl hs rfl (by simp) (by simp) (by simp)
    · exact .ofStages rfl hs rfl (by simp) (by simp) (by simp)
  | issued hs hw hi => exact .ofStages rfl hs (obtained_ok hg _) (by simp) (by simp) (by simp)
  | rest hs hw hf hr => exact .ofStages rfl hs rfl (by simp) (by simp) (by simp)
  | fallBack hs hw hf hr => exact .ofStages rfl hs rfl (by simp) (by simp) (by simp)
  | refreshFailed hs hw hr hf =>
    exact .ofStages rfl hs (obtained_error hg _) (by simp) (by simp) (by simp)
  | @send credential r' url' attempt hs hg' ha =>
    cases hg.symm.trans hg'
    refine .sends (if_pos rfl) ?_ ⟨_, _, _, _, rfl⟩ ⟨w.peer, rfl⟩
    rintro answer ⟨credential, attempt, sent, wake, hs'⟩
    rw [hs] at hs'
    cases hs'
  | succeed hs hw hg' ha hok =>
    refine .hears (if_pos rfl |>.trans (by rw [← ha]; rfl)) ⟨_, _, _, _, hs⟩ (by simp [Awaits]) ?_
    exact .inl ⟨_, ha, hok, rfl⟩
  | fail hs hw hg' hf hd =>
    cases hg.symm.trans hg'
    refine .hears (if_pos rfl) ⟨_, _, _, _, hs⟩ (by simp [Awaits]) ?_
    exact .inr ⟨_, hf, .inl rfl⟩
  | reject hs hw hg' hf ha hr =>
    cases hg.symm.trans hg'
    refine .hears (if_pos rfl) ⟨_, _, _, _, hs⟩ (by simp [Awaits]) ?_
    exact .inr ⟨_, hf, .inr ⟨rfl, .inl ha⟩⟩
  | slow hs hw hg' hf hc hr hd =>
    cases hg.symm.trans hg'
    refine .hears (if_pos rfl) ⟨_, _, _, _, hs⟩ ?_ ?_
    · simp only [Awaits]
      split <;> simp
    · refine .inr ⟨_, hf, .inr ⟨?_, .inr (by rw [hc]; rfl)⟩⟩
      change (if _ then _ else _ : Stage).outcome? = none
      split <;> rfl
  | retry hs hw hg' hf hc hr hd =>
    cases hg.symm.trans hg'
    refine .hears (if_pos rfl) ⟨_, _, _, _, hs⟩ ?_ ?_
    · simp only [Awaits]
      split <;> simp
    · refine .inr ⟨_, hf, .inr ⟨?_, .inr (by rcases hc with hc | hc <;> rw [hc] <;> rfl)⟩⟩
      change (if _ then _ else _ : Stage).outcome? = none
      split <;> rfl
  | idle hs hg' => exact absurd hg (hg' r url)

end Task

namespace Traffic

variable {σ : Type} {p : Peer σ} {c : Setup}

theorem recorded_start (date : UtcTime) (limiter : Limiter) (credential : Option Credential)
    (peer : σ) : (World.start date limiter credential peer).Recorded := by
  intro e he
  cases he

theorem recorded_move {w w' : World σ} {t t' : Task} (h : w.Recorded) (ht : t.id < w.tasks)
    (hm : t.Move p c w w' t') : w'.Recorded := by
  obtain ⟨events, hj, hevents, -⟩ := hm.journal_eq
  refine h.of_entries hm.tasks_eq hj ?_
  intro e he i hi
  obtain ⟨event, hevent, rfl⟩ := List.mem_map.mp he
  rcases hevents event hevent with hown | ⟨token, rfl⟩
  · cases hi.symm.trans hown
    exact ht
  · cases hi

theorem Kept.trivial : Kept p c (fun _ => True) (fun _ _ => True) :=
  .ofTask (fun _ _ _ => True.intro) (fun _ _ _ _ _ _ => True.intro)
    (fun _ _ _ _ _ => True.intro)

/-- What holds of a task and of what the journal tells of it, and goes on to hold whatever the task
does and however late it gets, is kept, together with what is kept anyway. -/
theorem Kept.withTimedView {α : Type} {view : Nat → List Entry → α} (hv : Journal.Own view)
    {I : World σ → Prop} {J : World σ → Task → Prop} (k : Kept p c I J)
    {Q : Instant → Task → α → Prop}
    (later : ∀ now time t a, now ≤ time → Q now t a → Q time t a)
    (start : ∀ (w : World σ) goal deadline,
      Q w.now (Task.start w w.tasks goal deadline) (view w.tasks []))
    (move : ∀ w t w' t', I w → J w t → Q w.now t (view t.id w.journal) → t.Move p c w w' t' →
      Q w.now t' (view t.id w'.journal))
    (expire : ∀ (w : World σ) t, Q w.now t (view t.id w.journal) → t.stage.outcome? = none →
      t.deadline.any (· ≤ w.now) → Q w.now (t.expire w).2 (view t.id (t.expire w).1.journal)) :
    Kept p c (fun w => I w ∧ w.Recorded)
      (fun w t => J w t ∧ t.id < w.tasks ∧ Q w.now t (view t.id w.journal)) where
  begin w goal deadline := by
    rintro ⟨hi, hrec⟩
    obtain ⟨hi', hnew, hold⟩ := k.begin w goal deadline hi
    refine ⟨⟨hi', fun e he i ht => Nat.lt_succ_of_lt (hrec e he i ht)⟩,
      ⟨hnew, Nat.lt_succ_self _, ?_⟩, ?_⟩
    · have hview := hrec.view_eq hv
      change Q w.now _ (view w.tasks w.journal)
      rw [hview]
      exact start w goal deadline
    · exact fun u hu => ⟨hold u hu.1, Nat.lt_succ_of_lt hu.2.1, hu.2.2⟩
  move w t w' t' := by
    rintro ⟨hi, hrec⟩ ⟨hj, hlt, hq⟩ hm
    obtain ⟨hi', hnew, hold⟩ := k.move w t w' t' hi hj hm
    refine ⟨⟨hi', recorded_move hrec hlt hm⟩, ⟨hnew, ?_, ?_⟩, ?_⟩
    · rw [hm.id_eq, hm.tasks_eq]
      exact hlt
    · rw [hm.id_eq, hm.now_eq]
      exact move w t w' t' hi hj hq hm
    · rintro u hne ⟨hu, hult, huq⟩
      refine ⟨hold u hne hu, ?_, ?_⟩
      · rw [hm.tasks_eq]
        exact hult
      · rw [hm.view_other hv hne, hm.now_eq]
        exact huq
  expire w t := by
    rintro ⟨hi, hrec⟩ ⟨hj, hlt, hq⟩ hu hd
    obtain ⟨hi', hnew, hold⟩ := k.expire w t hi hj hu hd
    have hentry : (t.expire w).1.journal = [⟨w.now, .expired t.id⟩] ++ w.journal := rfl
    refine ⟨⟨hi', ?_⟩, ⟨hnew, hlt, expire w t hq hu hd⟩, ?_⟩
    · refine hrec.of_entries rfl hentry ?_
      intro e he i ht
      cases List.mem_singleton.mp he
      cases ht
      exact hlt
    · rintro u hne ⟨hu, hult, huq⟩
      refine ⟨hold u hne hu, hult, ?_⟩
      rw [hentry, hv.append]
      · exact huq
      · intro e he ht
        cases List.mem_singleton.mp he
        exact hne (Option.some.inj ht).symm
  drop w t := by
    rintro ⟨hi, hrec⟩ ⟨hj, -⟩
    obtain ⟨hi', hold⟩ := k.drop w t hi hj
    exact ⟨⟨hi', hrec⟩, fun u hne hu => ⟨hold u hne hu.1, hu.2⟩⟩
  elapse w time := by
    rintro ⟨hi, hrec⟩ hle
    obtain ⟨hi', hold⟩ := k.elapse w time hi hle
    exact ⟨⟨hi', hrec⟩, fun u hu => ⟨hold u hu.1, hu.2.1, later _ _ u _ hle hu.2.2⟩⟩
  date w date := by
    rintro ⟨hi, hrec⟩
    obtain ⟨hi', hold⟩ := k.date w date hi
    exact ⟨⟨hi', hrec⟩, fun u hu => ⟨hold u hu.1, hu.2⟩⟩
  limit w a mark l := by
    rintro ⟨hi, hrec⟩ ha
    obtain ⟨hi', hold⟩ := k.limit w a mark l hi ha
    exact ⟨⟨hi', hrec⟩, fun u hu => ⟨hold u hu.1, hu.2⟩⟩
  invalidate w token := by
    rintro ⟨hi, hrec⟩
    obtain ⟨hi', hold⟩ := k.invalidate w token hi
    have hentry : (w.invalidate token).journal = [⟨w.now, .invalidated token⟩] ++ w.journal := rfl
    refine ⟨⟨hi', ?_⟩, ?_⟩
    · refine hrec.of_entries rfl hentry ?_
      intro e he i ht
      cases List.mem_singleton.mp he
      cases ht
    · rintro u ⟨hu, hult, huq⟩
      refine ⟨hold u hu, hult, ?_⟩
      rw [hentry, hv.append]
      · exact huq
      · intro e he ht
        cases List.mem_singleton.mp he
        cases ht

theorem Kept.withView {α : Type} {view : Nat → List Entry → α} (hv : Journal.Own view)
    {I : World σ → Prop} {J : World σ → Task → Prop} (k : Kept p c I J) {Q : Task → α → Prop}
    (start : ∀ (w : World σ) goal deadline,
      Q (Task.start w w.tasks goal deadline) (view w.tasks []))
    (move : ∀ w t w' t', I w → J w t → Q t (view t.id w.journal) → t.Move p c w w' t' →
      Q t' (view t.id w'.journal))
    (expire : ∀ (w : World σ) t, Q t (view t.id w.journal) → t.stage.outcome? = none →
      t.deadline.any (· ≤ w.now) → Q (t.expire w).2 (view t.id (t.expire w).1.journal)) :
    Kept p c (fun w => I w ∧ w.Recorded)
      (fun w t => J w t ∧ t.id < w.tasks ∧ Q t (view t.id w.journal)) :=
  .withTimedView (Q := fun _ => Q) hv k (fun _ _ _ _ _ h => h) start move expire

/-- What the journal tells of a task it goes on to tell when the task is gone. -/
theorem Kept.withRecord {α : Type} {view : Nat → List Entry → α} (hv : Journal.Own view)
    {I : World σ → Prop} {J : World σ → Task → Prop} (k : Kept p c I J) {P : Nat → α → Prop}
    (told : ∀ w t, I w → J w t → P t.id (view t.id w.journal)) :
    Kept p c (fun w => I w ∧ ∀ i, P i (view i w.journal)) J where
  begin w goal deadline := by
    rintro ⟨hi, hp⟩
    obtain ⟨hi', hrest⟩ := k.begin w goal deadline hi
    exact ⟨⟨hi', hp⟩, hrest⟩
  move w t w' t' := by
    rintro ⟨hi, hp⟩ hj hm
    obtain ⟨hi', hnew, hold⟩ := k.move w t w' t' hi hj hm
    refine ⟨⟨hi', fun i => ?_⟩, hnew, hold⟩
    by_cases he : i = t.id
    · rw [he, ← hm.id_eq]
      exact told w' t' hi' hnew
    · rw [hm.view_other hv he]
      exact hp i
  expire w t := by
    rintro ⟨hi, hp⟩ hj hu hd
    obtain ⟨hi', hnew, hold⟩ := k.expire w t hi hj hu hd
    refine ⟨⟨hi', fun i => ?_⟩, hnew, hold⟩
    by_cases he : i = t.id
    · rw [he]
      exact told (t.expire w).1 (t.expire w).2 hi' hnew
    · have hother : (Event.expired t.id).task? ≠ some i := fun ht => he (Option.some.inj ht).symm
      have hview := hv i ⟨w.now, .expired t.id⟩ w.journal hother
      exact hview ▸ hp i
  drop w t := by
    rintro ⟨hi, hp⟩ hj
    obtain ⟨hi', hold⟩ := k.drop w t hi hj
    exact ⟨⟨hi', hp⟩, hold⟩
  elapse w time := by
    rintro ⟨hi, hp⟩ hle
    obtain ⟨hi', hold⟩ := k.elapse w time hi hle
    exact ⟨⟨hi', hp⟩, hold⟩
  date w date := by
    rintro ⟨hi, hp⟩
    obtain ⟨hi', hold⟩ := k.date w date hi
    exact ⟨⟨hi', hp⟩, hold⟩
  limit w a mark l := by
    rintro ⟨hi, hp⟩ ha
    obtain ⟨hi', hold⟩ := k.limit w a mark l hi ha
    exact ⟨⟨hi', hp⟩, hold⟩
  invalidate w token := by
    rintro ⟨hi, hp⟩
    obtain ⟨hi', hold⟩ := k.invalidate w token hi
    refine ⟨⟨hi', fun i => ?_⟩, hold⟩
    have hother : (Event.invalidated token).task? ≠ some i := nofun
    have hview := hv i ⟨w.now, .invalidated token⟩ w.journal hother
    exact hview ▸ hp i

/-- What the journal makes true of a task, and what is true of it ever after, is kept together with what
is kept anyway. -/
theorem Kept.withJournal {I : World σ → Prop} {J Q : World σ → Task → Prop} (k : Kept p c I J)
    (grow : ∀ (w w' : World σ) t es, w'.journal = es ++ w.journal → Q w t → Q w' t)
    (start : ∀ (w : World σ) goal deadline, Q w (Task.start w w.tasks goal deadline))
    (move : ∀ w t w' t', I w → J w t → t.Move p c w w' t' → Q w' t')
    (expire : ∀ (w : World σ) (t : Task), t.deadline.any (· ≤ w.now) →
      Q (t.expire w).1 (t.expire w).2) :
    Kept p c I (fun w t => J w t ∧ Q w t) where
  begin w goal deadline h := by
    obtain ⟨hi, hnew, hold⟩ := k.begin w goal deadline h
    exact ⟨hi, ⟨hnew, grow w _ _ [] rfl (start w goal deadline)⟩,
      fun u hu => ⟨hold u hu.1, grow w _ u [] rfl hu.2⟩⟩
  move w t w' t' h ht hm := by
    obtain ⟨hi, hnew, hold⟩ := k.move w t w' t' h ht.1 hm
    obtain ⟨events, hj, -⟩ := hm.journal_eq
    exact ⟨hi, ⟨hnew, move w t w' t' h ht.1 hm⟩,
      fun u hne hu => ⟨hold u hne hu.1, grow w w' u _ hj hu.2⟩⟩
  expire w t h ht hu hd := by
    obtain ⟨hi, hnew, hold⟩ := k.expire w t h ht.1 hu hd
    exact ⟨hi, ⟨hnew, expire w t hd⟩, fun u hne hu => ⟨hold u hne hu.1, grow w _ u [_] rfl hu.2⟩⟩
  drop w t h ht := by
    obtain ⟨hi, hold⟩ := k.drop w t h ht.1
    exact ⟨hi, fun u hne hu => ⟨hold u hne hu.1, grow w _ u [] rfl hu.2⟩⟩
  elapse w time h hle := by
    obtain ⟨hi, hold⟩ := k.elapse w time h hle
    exact ⟨hi, fun u hu => ⟨hold u hu.1, grow w _ u [] rfl hu.2⟩⟩
  date w date h := by
    obtain ⟨hi, hold⟩ := k.date w date h
    exact ⟨hi, fun u hu => ⟨hold u hu.1, grow w _ u [] rfl hu.2⟩⟩
  limit w a mark l h ha := by
    obtain ⟨hi, hold⟩ := k.limit w a mark l h ha
    exact ⟨hi, fun u hu => ⟨hold u hu.1, grow w _ u [] rfl hu.2⟩⟩
  invalidate w token h := by
    obtain ⟨hi, hold⟩ := k.invalidate w token h
    exact ⟨hi, fun u hu => ⟨hold u hu.1, grow w _ u [_] rfl hu.2⟩⟩

theorem Kept.ofTries {Q : Task → List Try → Prop}
    (start : ∀ (w : World σ) goal deadline, Q (Task.start w w.tasks goal deadline) [])
    (move : ∀ (w : World σ) t w' t', Q t (Journal.tries t.id w.journal) → t.Move p c w w' t' →
      Q t' (Journal.tries t.id w'.journal))
    (expire : ∀ (w : World σ) t tries, Q t tries → t.stage.outcome? = none →
      t.deadline.any (· ≤ w.now) → Q (t.expire w).2 tries) :
    Kept p c World.Recorded
      (fun w t => t.id < w.tasks ∧ Q t (Journal.tries t.id w.journal)) := by
  have k := Kept.withView Journal.own_tries (Kept.trivial (p := p) (c := c)) start
    (fun w t w' t' _ _ => move w t w' t') (fun w t hq => expire w t _ hq)
  simpa only [true_and] using k

/-- An attempt of a call: it carries the request, and what was heard of it is what the service answered
to it. -/
def TryOf (p : Peer σ) (c : Setup) (r : Request) (url : Url) (x : Try) : Prop :=
  (∃ authorization, x.attempt = r.attempt url authorization c.timeout) ∧
    ∀ result, x.result = some result → ∃ peer elapsed n,
      result = (p.send x.attempt peer).1.answer.map (.stamped elapsed n)

/-- The attempts of a call are its own. One that awaits an answer awaits that to the last attempt, and a
call that succeeds got its response from it. -/
structure Tried (p : Peer σ) (c : Setup) (r : Request) (url : Url) (t : Task) (tries : List Try) :
    Prop where
  own : ∀ x ∈ tries, TryOf p c r url x
  awaits : ∀ answer, t.Awaits answer → ∃ a rest, tries = ⟨a, none⟩ :: rest ∧
    ∃ peer, (p.send a peer).1.answer = answer
  succeeds : ∀ a, t.stage = .done (.answer (.ok a)) → a.isSuccess ∧
    ∃ x rest, tries = x :: rest ∧ x.result = some (.ok a)

theorem Tried.move {r : Request} {url : Url} {w w' : World σ} {t t' : Task}
    (h : Tried p c r url t (Journal.tries t.id w.journal)) (hg : t.goal = .call r url)
    (hm : t.Move p c w w' t') : Tried p c r url t' (Journal.tries t.id w'.journal) := by
  cases hm.tries hg with
  | quiet hj hs hs' hd =>
    rw [hj]
    refine ⟨h.own, fun answer ha => absurd ha (hs' answer), ?_⟩
    intro a ha
    obtain ⟨f, hf⟩ := hd _ ha
    cases hf
  | @sends authorization answer hj hs hs' ha =>
    obtain ⟨peer, hpeer⟩ := ha
    rw [hj]
    refine ⟨?_, ?_, ?_⟩
    · intro x hx
      rcases List.mem_cons.mp hx with rfl | hx
      · exact ⟨⟨authorization, rfl⟩, by simp⟩
      · exact h.own x hx
    · intro answer' ha'
      refine ⟨_, _, rfl, peer, ?_⟩
      obtain ⟨_, _, _, _, hst⟩ := hs'
      obtain ⟨_, _, _, _, hst'⟩ := ha'
      rw [hst] at hst'
      cases hst'
      exact hpeer
    · intro a ha
      obtain ⟨_, _, _, _, hst⟩ := hs'
      rw [hst] at ha
      cases ha
  | @hears answer elapsed n hj hs hs' hd =>
    obtain ⟨a, rest, htries, peer, hpeer⟩ := h.awaits answer hs
    have hheard : Journal.tries t.id w'.journal =
        ⟨a, some (answer.map (.stamped elapsed n))⟩ :: rest := by
      rw [hj, htries]
      rfl
    rw [hheard]
    refine ⟨?_, fun answer ha => absurd ha (hs' answer), ?_⟩
    · intro x hx
      rcases List.mem_cons.mp hx with rfl | hx
      · refine ⟨(h.own ⟨a, none⟩ (htries ▸ List.mem_cons_self)).1, ?_⟩
        rintro _ ⟨⟩
        exact ⟨peer, elapsed, n, by rw [hpeer]⟩
      · exact h.own x (htries ▸ List.mem_cons_of_mem _ hx)
    · intro b hb
      rcases hd with ⟨b', hb', hok, hst⟩ | ⟨f, -, hst | ⟨hst, -⟩⟩
      · rw [hst] at hb
        cases hb
        exact ⟨hok, _, _, rfl, by rw [hb']⟩
      · rw [hst] at hb
        cases hb
      · rw [hb] at hst
        cases hst

/-- Behind the response of a call is a success with which the service answered one of its attempts. -/
theorem Tried.response {r : Request} {url : Url} {t : Task} {tries : List Try}
    (h : Tried p c r url t tries) {a : Response} (ht : t.stage = .done (.answer (.ok a))) :
    ∃ authorization peer b elapsed n,
      (p.send (r.attempt url authorization c.timeout) peer).1.answer = .ok b ∧ b.isSuccess ∧
        a = b.stamped elapsed n := by
  obtain ⟨hok, x, rest, htries, hx⟩ := h.succeeds a ht
  obtain ⟨⟨authorization, hattempt⟩, hresult⟩ := h.own x (htries ▸ List.mem_cons_self)
  obtain ⟨peer, elapsed, n, hsent⟩ := hresult _ hx
  rw [hattempt] at hsent
  cases hanswer : (p.send (r.attempt url authorization c.timeout) peer).1.answer with
  | error f =>
    rw [hanswer] at hsent
    cases hsent
  | ok b =>
    rw [hanswer] at hsent
    cases hsent
    exact ⟨authorization, peer, b, elapsed, n, hanswer, hok, rfl⟩

theorem Tried.start (w : World σ) (goal : Goal) (deadline : Option Span) {r : Request} {url : Url} :
    Tried p c r url (Task.start w w.tasks goal deadline) [] := by
  refine ⟨by simp, ?_, ?_⟩
  · rintro answer ⟨_, _, _, _, hs⟩
    cases goal <;> cases hs
  · intro a hs
    cases goal <;> cases hs

theorem Tried.expire {r : Request} {url : Url} {t : Task} {tries : List Try}
    (h : Tried p c r url t tries) (w : World σ) : Tried p c r url (t.expire w).2 tries := by
  refine ⟨h.own, ?_, ?_⟩
  · rintro answer ⟨_, _, _, _, hs⟩
    cases hs
  · intro a hs
    cases hs

theorem tried_kept : Kept p c World.Recorded (fun w t => t.id < w.tasks ∧
    ∀ r url, t.goal = .call r url → Tried p c r url t (Journal.tries t.id w.journal)) := by
  refine Kept.ofTries (Q := fun t tries => ∀ r url, t.goal = .call r url → Tried p c r url t tries)
    ?_ ?_ ?_
  · intro w goal deadline r url _
    exact .start w goal deadline
  · intro w t w' t' h hm r url hg
    rw [hm.goal_eq] at hg
    exact (h r url hg).move hg hm
  · intro w t tries h _ _ r url hg
    exact (h r url hg).expire w

end Traffic

end CatalogClient
