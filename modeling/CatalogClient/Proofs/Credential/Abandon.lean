import CatalogClient.Proofs.Credential.SingleFlight
import CatalogClient.Proofs.Pipeline.Completion
import CatalogClient.Proofs.Pipeline.Tries
/-!
A caller that is given up while it waits for the lock, or while it has the lock and refreshes the
credential. It leaves no trace in the vault, the lock goes on to the next, and whatever the others come to
they have from a refresh that ended.
-/

namespace CatalogClient

namespace Vault

/-- The vault after tokens were rejected, the one named last first. -/
def rejecting (v : Vault) (tokens : List String) : Vault :=
  tokens.foldr (fun token v => v.invalidate token) v

theorem rejecting_append (v : Vault) (later earlier : List String) :
    v.rejecting (later ++ earlier) = (v.rejecting earlier).rejecting later := List.foldr_append

/-- Nothing happened to the vault but that the token it holds may have been among the rejected ones. -/
def Spared (v v' : Vault) (tokens : List String) : Prop :=
  v' = v ∨ (∃ c, v.credential = some c ∧ c.accessToken ∈ tokens) ∧ v' = { v with rejected := true }

theorem spared_rejecting (v : Vault) (tokens : List String) : v.Spared (v.rejecting tokens) tokens := by
  induction tokens with
  | nil => exact .inl rfl
  | cons token tokens ih =>
    change v.Spared ((v.rejecting tokens).invalidate token) _
    have hheld : (v.rejecting tokens).credential = v.credential := by
      rcases ih with h | ⟨-, h⟩ <;> rw [h]
    rcases (v.rejecting tokens).invalidate_cases token with hsame | ⟨⟨c, hc, ht⟩, hrejected⟩
    · rw [hsame]
      exact ih.imp_right fun ⟨⟨c, hc, hm⟩, h⟩ => ⟨⟨c, hc, List.mem_cons_of_mem _ hm⟩, h⟩
    · refine .inr ⟨⟨c, hheld.symm.trans hc, ht ▸ List.mem_cons_self⟩, ?_⟩
      rw [hrejected]
      rcases ih with h | ⟨-, h⟩ <;> rw [h]

/-- What the vault has for a caller. -/
def Gives (v : Vault) : Except Failure Credential → Prop
  | .ok c => v.credential = some c
  | .error f => v.lastFailure = some f

theorem gives_invalidate {v : Vault} {token : String} {result : Except Failure Credential} :
    (v.invalidate token).Gives result ↔ v.Gives result := by
  have hstays := v.stays_invalidate token
  cases result with
  | ok c => simp only [Gives, hstays.credential]
  | error f => simp only [Gives, hstays.lastFailure]

theorem gives_keep {v : Vault} {result own : Except Failure Credential}
    (h : (v.keep result).Gives own) : own = result ∨ v.Gives own := by
  cases result with
  | ok c =>
    cases own with
    | ok c' => exact .inl (congrArg _ (Option.some.inj h).symm)
    | error f => cases h
  | error f =>
    cases own with
    | ok c => exact .inr h
    | error f' => exact .inl (congrArg _ (Option.some.inj h).symm)

theorem gives_count {v : Vault} {result : Except Failure Credential} :
    v.count.Gives result ↔ v.Gives result := by
  cases result <;> rfl

end Vault

def Event.rejected? : Event → Option String
  | .invalidated token => some token
  | _ => none

namespace Journal

def rejected (journal : List Entry) : List String := journal.filterMap (·.event.rejected?)

theorem rejected_append (news older : List Entry) :
    rejected (news ++ older) = rejected news ++ rejected older := List.filterMap_append

/-- The result was in the vault at the start, or is that of a refresh which the journal tells of. -/
def Source (v : Vault) (journal : List Entry) (result : Except Failure Credential) : Prop :=
  v.Gives result ∨ ∃ e ∈ journal, ∃ i, e.event = .refreshed i result

theorem Source.mono {v : Vault} {journal : List Entry} {result : Except Failure Credential}
    (h : Source v journal result) (news : List Entry) : Source v (news ++ journal) result :=
  h.imp_right fun ⟨e, he, hev⟩ => ⟨e, List.mem_append_right _ he, hev⟩

/-- Whatever a task obtained had its source by then. -/
def Sourced (v : Vault) : List Entry → Prop
  | [] => True
  | e :: older => (∀ i result, e.event = .obtained i result → Source v older result) ∧ Sourced v older

theorem Sourced.source {v : Vault} {news older : List Entry} {e : Entry}
    (h : Sourced v (news ++ e :: older)) {i : Nat} {result : Except Failure Credential}
    (he : e.event = .obtained i result) : Source v older result := by
  induction news with
  | nil => exact h.1 i result he
  | cons _ news ih => exact ih h.2

theorem Sourced.append {v : Vault} {news older : List Entry} (h : Sourced v older)
    (hn : ∀ e ∈ news, ∀ i result, e.event = .obtained i result → Source v older result) :
    Sourced v (news ++ older) := by
  induction news with
  | nil => exact h
  | cons e news ih =>
    refine ⟨fun i result he => (hn e List.mem_cons_self i result he).mono news, ih fun e' he' => ?_⟩
    exact hn e' (List.mem_cons_of_mem _ he')

end Journal

namespace Traffic

variable {σ : Type} {p : Peer σ} {c : Setup} {w w' : World σ} {s s' : Traffic σ} {t t' : Task} {i : Nat}

/-- The task is inside a refresh. -/
def Holds (s : Traffic σ) (i : Nat) : Prop := ∃ t ∈ s.tasks, t.id = i ∧ t.stage.holds

/-- From the state before a task begins a refresh to one in which it is still inside it. -/
inductive Refreshing (p : Peer σ) (c : Setup) (i : Nat) (s : Traffic σ) : Traffic σ → Prop
  | refl : Refreshing p c i s s
  | tail {s₁ s₂ : Traffic σ} (h : Refreshing p c i s s₁) (hs : Step p c s₁ s₂) (hh : s₂.Holds i) :
    Refreshing p c i s s₂

/-- From the first state to the second, no refresh ends. -/
structure Unfinished (s s' : Traffic σ) (news : List Entry) : Prop where
  journal : s'.world.journal = news ++ s.world.journal
  vault : s'.world.vault = s.world.vault.rejecting (Journal.rejected news)
  none : ∀ e ∈ news, ∀ i result, e.event ≠ .refreshed i result

theorem Unfinished.trans {s'' : Traffic σ} {news news' : List Entry} (h : Unfinished s s' news)
    (h' : Unfinished s' s'' news') : Unfinished s s'' (news' ++ news) := by
  refine ⟨by rw [h'.journal, h.journal, List.append_assoc], ?_, ?_⟩
  · rw [h'.vault, h.vault, Journal.rejected_append, Vault.rejecting_append]
  · intro e he
    rcases List.mem_append.mp he with he | he
    · exact h'.none e he
    · exact h.none e he

theorem not_concluded {ts : List Task} (hg : Guarded ⟨w, ts⟩) (ht : t ∈ ts) (hh : t.stage.holds)
    (hid : t'.id = t.id) (hout : t'.stage.isInside = false) : ¬ Holds ⟨w', put ts t'⟩ i := by
  rintro ⟨u, hu, rfl, huh⟩
  rcases mem_put hu with rfl | ⟨hu, hne⟩
  · rw [Stage.isInside_of_holds huh] at hout
    cases hout
  · have hboth := (hg.holds u hu huh).symm.trans (hg.holds t ht hh)
    exact hne (hid ▸ Option.some.inj hboth)

theorem Step.unfinished (hg : s.Guarded) (h : Step p c s s') (hh : s'.Holds i) :
    ∃ news, Unfinished s s' news := by
  cases h with
  | @move w w' ts t t' ht hstep =>
    have hm := Task.step_move hstep
    have hid := hm.id_eq
    cases hm with
    | issued hs =>
      exact absurd hh (not_concluded hg ht (by rw [hs]; rfl) hid (t.obtained_isInside _))
    | refreshFailed hs =>
      exact absurd hh (not_concluded hg ht (by rw [hs]; rfl) hid (t.obtained_isInside _))
    | stray | refused | lined | refresh | idle => exact ⟨[], rfl, rfl, by simp⟩
    | granted | found | shared | sharedFailure | exchange | rest | fallBack | send | succeed | fail
    | retry => exact ⟨[_], rfl, rfl, by simp⟩
    | reject | slow => exact ⟨[_, _], rfl, rfl, by simp⟩
  | begin | drop | elapse | date | limit => exact ⟨[], rfl, rfl, by simp⟩
  | expire | invalidate => exact ⟨[_], rfl, rfl, by simp⟩

theorem Refreshing.reaches (h : Refreshing p c i s s') : Reaches p c s s' := by
  induction h with
  | refl => exact .refl
  | tail _ hs _ ih => exact ih.tail hs

theorem Refreshing.unfinished (hg : s.Guarded) (h : Refreshing p c i s s') :
    ∃ news, Unfinished s s' news := by
  induction h with
  | refl => exact ⟨[], rfl, rfl, by simp⟩
  | tail h hs hh ih =>
    obtain ⟨old, hold⟩ := ih
    obtain ⟨new, hnew⟩ := hs.unfinished (hg.reaches h.reaches) hh
    exact ⟨new ++ old, hold.trans hnew⟩

/-- The task has begun, and is over. -/
def Over (s : Traffic σ) (i : Nat) : Prop :=
  i < s.world.tasks ∧ ∀ t ∈ s.tasks, t.id = i → t.stage.outcome?.isSome

theorem Over.step (ho : s.Over i) (h : Step p c s s') : s'.Over i ∧
    ∃ news, s'.world.journal = news ++ s.world.journal ∧ ∀ e ∈ news, e.event.task? ≠ some i := by
  obtain ⟨hbegun, hover⟩ := ho
  have hundone {ts : List Task} (hover : ∀ t ∈ ts, t.id = i → t.stage.outcome?.isSome) {t : Task}
      (ht : t ∈ ts) (hu : t.stage.outcome? = none) : t.id ≠ i := by
    intro hti
    have hdone := hover t ht hti
    rw [hu] at hdone
    cases hdone
  cases h with
  | begin w ts goal deadline =>
    refine ⟨⟨Nat.lt_succ_of_lt hbegun, fun u hu hui => ?_⟩, [], rfl, by simp⟩
    rcases List.mem_append.mp hu with hu | hu
    · exact hover u hu hui
    · cases List.mem_singleton.mp hu
      exact absurd hui (Nat.ne_of_gt hbegun)
  | @move w w' ts t t' ht hstep =>
    have hm := Task.step_move hstep
    have hne := hundone hover ht hm.undone
    obtain ⟨events, hj, hown, -⟩ := hm.journal_eq
    refine ⟨⟨hm.tasks_eq ▸ hbegun, fun u hu hui => ?_⟩, _, hj, ?_⟩
    · rcases mem_put hu with rfl | ⟨hu, -⟩
      · exact absurd (hm.id_eq.symm.trans hui) hne
      · exact hover u hu hui
    · intro e he hev
      obtain ⟨event, hmem, rfl⟩ := List.mem_map.mp he
      rcases hown event hmem with hown | ⟨token, rfl⟩
      · exact hne (Option.some.inj (hown.symm.trans hev))
      · cases hev
  | @expire w ts t ht hu hd =>
    have hne := hundone hover ht hu
    refine ⟨⟨hbegun, fun u hu hui => ?_⟩, [_], rfl, ?_⟩
    · rcases mem_put hu with rfl | ⟨hu, -⟩
      · rfl
      · exact hover u hu hui
    · intro e he hev
      cases List.mem_singleton.mp he
      exact hne (Option.some.inj hev)
  | drop ht =>
    exact ⟨⟨hbegun, fun u hu hui => hover u (mem_without.mp hu).1 hui⟩, [], rfl, by simp⟩
  | elapse | date | limit => exact ⟨⟨hbegun, hover⟩, [], rfl, by simp⟩
  | invalidate => exact ⟨⟨hbegun, hover⟩, [_], rfl, by simp [Event.task?]⟩

theorem Over.reaches (ho : s.Over i) (h : Reaches p c s s') :
    ∃ news, s'.world.journal = news ++ s.world.journal ∧ ∀ e ∈ news, e.event.task? ≠ some i := by
  suffices s'.Over i ∧
      ∃ news, s'.world.journal = news ++ s.world.journal ∧ ∀ e ∈ news, e.event.task? ≠ some i from this.2
  induction h with
  | refl => exact ⟨ho, [], rfl, by simp⟩
  | tail _ hs ih =>
    obtain ⟨ho₁, old, hold, hquiet⟩ := ih
    obtain ⟨ho₂, new, hnew, hquiet'⟩ := ho₁.step hs
    refine ⟨ho₂, new ++ old, by rw [hnew, hold, List.append_assoc], fun e he => ?_⟩
    exact (List.mem_append.mp he).elim (hquiet' e) (hquiet e)

/-- All that tasks obtained and all that they may find has a source. -/
structure Supplied (v : Vault) (w : World σ) : Prop where
  sourced : Journal.Sourced v w.journal
  stored : ∀ result, w.vault.Gives result → Journal.Source v w.journal result

theorem Supplied.quiet {v : Vault} (h : Supplied v w) (news : List Entry)
    (hj : w'.journal = news ++ w.journal)
    (hv : ∀ result, w'.vault.Gives result → w.vault.Gives result)
    (hn : ∀ e ∈ news, ∀ i result, e.event = .obtained i result → w.vault.Gives result) :
    Supplied v w' := by
  refine ⟨hj ▸ h.sourced.append fun e he i result hev => h.stored result (hn e he i result hev), ?_⟩
  exact fun result hg => hj ▸ (h.stored result (hv result hg)).mono news

theorem Supplied.concluded {v : Vault} (h : Supplied v w) {i : Nat}
    {result : Except Failure Credential} {answer : Except Failure TokenGrant}
    (hj : w'.journal = ⟨w.now, .obtained i result⟩ :: ⟨w.now, .refreshed i result⟩ ::
      ⟨w.now, .issued i answer⟩ :: w.journal)
    (hv : w'.vault = w.vault.refreshed result) : Supplied v w' := by
  refine ⟨?_, fun own hg => ?_⟩
  · rw [hj]
    refine ⟨?_, by simp, by simp, h.sourced⟩
    intro j own hev
    cases hev
    exact .inr ⟨_, List.mem_cons_self, i, rfl⟩
  · rw [hv, Vault.refreshed_eq, Vault.gives_count] at hg
    rw [hj]
    rcases Vault.gives_keep hg with rfl | hg
    · exact .inr ⟨_, List.mem_cons_of_mem _ List.mem_cons_self, i, rfl⟩
    · exact (h.stored own hg).mono [_, _, _]

theorem Supplied.step {v : Vault} (h : Supplied v s.world) (hs : Step p c s s') :
    Supplied v s'.world := by
  have hgives {credential : Credential} (hu : s.world.usable? c = some credential) :
      s.world.vault.Gives (.ok credential) := (Vault.usable?_eq_some.mp hu).1
  cases hs with
  | move ht hstep =>
    cases Task.step_move hstep with
    | issued | refreshFailed => exact h.concluded rfl rfl
    | found hs hu | shared hs hh hu =>
      refine h.quiet [_] rfl (fun _ => id) ?_
      rintro e he i result hev
      cases List.mem_singleton.mp he
      cases hev
      exact hgives hu
    | sharedFailure hs hh hu hg hf =>
      refine h.quiet [_] rfl (fun _ => id) ?_
      rintro e he i result hev
      cases List.mem_singleton.mp he
      cases hev
      exact hf
    | reject =>
      exact h.quiet [_, _] rfl (fun _ => Vault.gives_invalidate.mp) (by simp)
    | stray | refused | lined | refresh | idle =>
      exact h.quiet [] rfl (fun _ => id) (by simp)
    | granted | exchange | rest | fallBack | send | succeed | fail | retry =>
      exact h.quiet [_] rfl (fun _ => id) (by simp)
    | slow => exact h.quiet [_, _] rfl (fun _ => id) (by simp)
  | begin | drop | elapse | date | limit => exact h.quiet [] rfl (fun _ => id) (by simp)
  | expire => exact h.quiet [_] rfl (fun _ => id) (by simp)
  | invalidate =>
    exact h.quiet [_] rfl (fun _ => Vault.gives_invalidate.mp) (by simp)

theorem Supplied.reaches {v : Vault} (h : Supplied v s.world) (hr : Reaches p c s s') :
    Supplied v s'.world := by
  induction hr with
  | refl => exact h
  | tail _ hs ih => exact ih.step hs

/-- The tasks that there are go on, and the clock. -/
inductive Onward (p : Peer σ) (c : Setup) : Traffic σ → Traffic σ → Prop
  | move {w w' : World σ} {ts : List Task} {t t' : Task} (ht : t ∈ ts)
    (h : t.step p c w = .ok (some (w', t'))) : Onward p c ⟨w, ts⟩ ⟨w', put ts t'⟩
  | elapse {w : World σ} {ts : List Task} {time : Instant} (h : w.now ≤ time) :
    Onward p c ⟨w, ts⟩ ⟨{ w with now := time }, ts⟩

theorem Onward.step (h : Onward p c s s') : Step p c s s' := by
  cases h with
  | move ht h => exact .move ht h
  | elapse h => exact .elapse h

/-- A task goes on in time, unless it is done or another has the lock. -/
theorem stirs (hu : t.stage.outcome? = none)
    (hl : ∀ o, t.stage = .queued o → w.turnstile.holder = some t.id) :
    ∃ time, w.now ≤ time ∧ t.step p c { w with now := time } ≠ .ok none := by
  by_cases hwait : t.step p c w = .ok none
  · rcases Task.step_wait hwait with hdone | ⟨wake, hwake, hlt⟩ | ⟨o, ho, hne⟩
    · rw [hu] at hdone
      cases hdone
    · refine ⟨wake, Nat.le_of_lt hlt, fun hstill => ?_⟩
      rcases Task.step_wait hstill with hdone | ⟨wake', hwake', hlate⟩ | ⟨o, ho, -⟩
      · rw [hu] at hdone
        cases hdone
      · cases hwake.symm.trans hwake'
        exact Nat.lt_irrefl _ hlate
      · rw [ho] at hwake
        cases hwake
    · exact absurd (hl o ho) hne
  · exact ⟨w.now, Nat.le_refl _, hwait⟩

/-- As long as somebody stands at the lock, somebody goes on in time. -/
theorem Guarded.stirs (hg : s.Guarded) (ht : t ∈ s.tasks) (hin : t.stage.isInside) :
    ∃ u ∈ s.tasks, ∃ time, s.world.now ≤ time ∧
      u.step p c { s.world with now := time } ≠ .ok none := by
  by_cases hl : ∀ o, t.stage = .queued o → s.world.turnstile.holder = some t.id
  · exact ⟨t, ht, Traffic.stirs (Stage.outcome?_of_isInside hin) hl⟩
  · cases hh : s.world.turnstile.holder with
    | none =>
      have hmem := hg.inside t ht hin
      rw [Turnstile.inside, hh, hg.fair.led hh] at hmem
      cases hmem
    | some i =>
      obtain ⟨u, hu, rfl, huin⟩ := hg.present i (by simp [Turnstile.inside, hh])
      exact ⟨u, hu, Traffic.stirs (Stage.outcome?_of_isInside huin) fun _ _ => hh⟩

theorem obtains (hm : t.Move p c w w' t') (hin : t.stage.isInside)
    (hout : t'.stage.isInside = false) : ∃ news, w'.journal = news ++ w.journal ∧
      ∃ e ∈ news, ∃ result, e.event = .obtained t.id result := by
  have hnot {stage : Stage} (hs : t.stage = stage) (h : stage.isInside = false) : False := by
    rw [hs, h] at hin
    cases hin
  cases hm with
  | shared | sharedFailure => exact ⟨[_], rfl, _, List.mem_cons_self, _, rfl⟩
  | issued | refreshFailed => exact ⟨[_, _, _], rfl, _, List.mem_cons_self, _, rfl⟩
  | lined | refresh | exchange | rest | fallBack => cases hout
  | refused ha | granted ha => exact (hnot rfl ha.isInside).elim
  | stray hs | found hs | send hs | succeed hs | fail hs | reject hs | slow hs | retry hs =>
    exact (hnot hs rfl).elim
  | idle hs =>
    rcases hs with hs | ⟨attempt, sent, wake, answer, hs⟩
    · exact (hnot hs rfl).elim
    · exact (hnot hs rfl).elim

/-- A task obtained a credential or learned that there is none, or a fault ended everything. -/
def Answered (p : Peer σ) (c : Setup) (i : Nat) (s s' : Traffic σ) : Prop :=
  (∃ news, s'.world.journal = news ++ s.world.journal ∧
    ∃ e ∈ news, ∃ result, e.event = .obtained i result) ∨
  ∃ t ∈ s'.tasks, ∃ fault, t.step p c s'.world = .error fault

theorem Answered.earlier {s₀ : Traffic σ} {news : List Entry}
    (hj : s.world.journal = news ++ s₀.world.journal) (h : Answered p c i s s') :
    Answered p c i s₀ s' := by
  refine h.imp_left fun ⟨later, hlater, e, he, hev⟩ => ⟨later ++ news, ?_, e, ?_, hev⟩
  · rw [hlater, hj, List.append_assoc]
  · exact List.mem_append_left _ he

/-- Whoever stands at the lock is answered if everybody goes on. -/
theorem Guarded.answered (hg : s.Guarded) (hl : s.world.limiter.Bounded) (ht : t ∈ s.tasks)
    (hin : t.stage.isInside) :
    ∃ s', Relation.ReflTransGen (Onward p c) s s' ∧ Answered p c t.id s s' := by
  generalize hk : work c.policy.maxRetries s.tasks.length s.world.limiter s.tasks = k
  induction k using Nat.strongRecOn generalizing s t with
  | ind k ih =>
    subst hk
    obtain ⟨u, hu, time, htime, hmoves⟩ := hg.stirs (p := p) (c := c) ht hin
    obtain ⟨w, ts⟩ := s
    have hlapse : Onward p c ⟨w, ts⟩ ⟨{ w with now := time }, ts⟩ := .elapse htime
    cases hstep : u.step p c { w with now := time } with
    | error fault => exact ⟨_, .single hlapse, .inr ⟨u, hu, fault, hstep⟩⟩
    | ok next =>
      cases next with
      | none => exact absurd hstep hmoves
      | some next =>
        obtain ⟨w', u'⟩ := next
        have hmove : Onward p c ⟨{ w with now := time }, ts⟩ ⟨w', put ts u'⟩ := .move hu hstep
        have hfirst := (Relation.ReflTransGen.single hlapse).tail hmove
        have hm := Task.step_move hstep
        have hg₁ := hg.step hlapse.step
        have hless := work_move_lt hg₁.sound hl hu (Nat.le_refl _) hm
        obtain ⟨events, hj, -⟩ := hm.journal_eq
        -- Either this was the step that answers the task, or the task still stands at the lock.
        have hnext : Answered p c t.id ⟨w, ts⟩ ⟨w', put ts u'⟩ ∨
            ∃ t' ∈ put ts u', t'.id = t.id ∧ t'.stage.isInside := by
          by_cases hut : u.id = t.id
          · cases List.inj_on_of_nodup_map hg.sound.distinct hu ht hut
            cases hin' : u'.stage.isInside with
            | true => exact .inr ⟨u', mem_put_self hu hm.id_eq, hm.id_eq, hin'⟩
            | false =>
              have hout := obtains hm hin hin'
              exact .inl (.inl hout)
          · exact .inr ⟨t, mem_put_other ht (by rw [hm.id_eq]; exact Ne.symm hut), rfl, hin⟩
        rcases hnext with hanswered | ⟨t', ht', hid, hin'⟩
        · exact ⟨_, hfirst, hanswered⟩
        · obtain ⟨s', hr, hanswered⟩ := ih _ (by rwa [length_put]) (hg₁.step hmove.step)
            (hm.bounded hl) ht' hin' rfl
          exact ⟨s', hfirst.trans hr, hid ▸ hanswered.earlier hj⟩

/-- The task is given up. -/
def expired (s : Traffic σ) (t : Task) : Traffic σ :=
  ⟨(t.expire s.world).1, put s.tasks (t.expire s.world).2⟩

/-- What becomes of the rest when a task is given up before it has a credential, in a client that began
with the world `w`. -/
structure Abandonment (p : Peer σ) (c : Setup) (w : World σ) (s : Traffic σ) (t : Task) : Prop where
  vault : (s.expired t).world.vault = s.world.vault
  /-- Since before its refresh no refresh has ended, and at most the token held was rejected. -/
  unfinished : ∀ s₀, Reaches p c ⟨w, []⟩ s₀ → Refreshing p c t.id s₀ s → ∃ news,
    Unfinished s₀ s news ∧
      s₀.world.vault.Spared (s.expired t).world.vault (Journal.rejected news)
  passed : s.world.turnstile.holder = some t.id →
    (s.expired t).world.turnstile.holder = s.world.turnstile.queue.head?
  kept : s.world.turnstile.holder ≠ some t.id →
    (s.expired t).world.turnstile.holder = s.world.turnstile.holder
  rest : ∀ i, i ∈ (s.expired t).world.turnstile.inside ↔ i ∈ s.world.turnstile.inside ∧ i ≠ t.id
  silent : ∀ s', Reaches p c (s.expired t) s' → ∃ news,
    s'.world.journal = news ++ (s.expired t).world.journal ∧ ∀ e ∈ news, e.event.task? ≠ some t.id
  sourced : ∀ s', Reaches p c (s.expired t) s' → ∀ news e older i result,
    s'.world.journal = news ++ e :: older → e.event = .obtained i result →
      Journal.Source w.vault older result
  answered : ∀ s', Reaches p c (s.expired t) s' → ∀ u ∈ s'.tasks, u.stage.isInside →
    ∃ s'', Relation.ReflTransGen (Onward p c) s' s'' ∧ Answered p c u.id s' s''

theorem abandonment (hw : w.Idle) (hj : w.journal = []) (h : Reaches p c ⟨w, []⟩ s) (ht : t ∈ s.tasks)
    (hin : t.stage.isInside) (hd : t.deadline.any (· ≤ s.world.now)) : Abandonment p c w s t := by
  have hguarded {s' : Traffic σ} (hr : Reaches p c ⟨w, []⟩ s') : s'.Guarded :=
    (Guarded.start hw.unlocked).reaches hr
  have hg := hguarded h
  have hexpire : Step p c s (s.expired t) := .expire ht (Stage.outcome?_of_isInside hin) hd
  have hafter {s' : Traffic σ} (hr : Reaches p c (s.expired t) s') : Reaches p c ⟨w, []⟩ s' :=
    (h.tail hexpire).trans hr
  have hleave : (s.expired t).world.turnstile = s.world.turnstile.leave t.id := rfl
  refine ⟨rfl, ?_, ?_, ?_, ?_, ?_, ?_, ?_⟩
  · intro s₀ hs₀ hr
    obtain ⟨news, hnews⟩ := hr.unfinished (hguarded hs₀)
    exact ⟨news, hnews, hnews.vault ▸ Vault.spared_rejecting _ _⟩
  · intro hh
    rw [hleave, Turnstile.leave, if_pos hh, Turnstile.pass]
    cases s.world.turnstile.queue <;> rfl
  · intro hh
    rw [hleave, Turnstile.leave, if_neg hh]
  · intro i
    rw [hleave]
    exact Turnstile.mem_leave hg.fair
  · intro s' hr
    refine Over.reaches ⟨hg.sound.begun t ht, fun u hu hut => ?_⟩ hr
    rcases mem_put hu with rfl | ⟨-, hne⟩
    · rfl
    · exact absurd hut hne
  · intro s' hr news e older i result hjournal hev
    have hstart : Supplied w.vault w := ⟨by rw [hj]; trivial, fun _ => .inl⟩
    have hsupplied := Supplied.reaches (s := ⟨w, []⟩) hstart (hafter hr)
    exact (hjournal ▸ hsupplied.sourced).source hev
  · intro s' hr u hu hin'
    exact (hguarded (hafter hr)).answered ((hafter hr).bounded hw.bounded) hu hin'

end Traffic

def VisitMark.rejected? : VisitMark → Option String
  | .invalidated token => some token
  | _ => none

def VisitMark.isKept : VisitMark → Bool
  | .kept .. => true
  | _ => false

namespace Lobby

variable {buffer : Span} {date : UtcTime} {vault vault' w : Vault} {v u : Nat} {a b : Visit}
  {marks : List VisitMark} {d d' : Lobby}

def rejected (record : List VisitMark) : List String := record.filterMap (·.rejected?)

theorem rejected_append (news older : List VisitMark) :
    rejected (news ++ older) = rejected news ++ rejected older := List.filterMap_append

/-- Since the visit got the lock nothing has been stored, and tokens were rejected at most. -/
def Pending (d : Lobby) (v : Nat) : Prop :=
  ∃ news w older, d.record = news ++ .entered v w :: older ∧
    (∀ m ∈ news, m.isKept = false ∧ m.isRefresh = false) ∧ d.vault = w.rejecting (rejected news)

theorem Pending.extend (h : d.Pending v) (marks : List VisitMark) (hr : d'.record = marks ++ d.record)
    (hm : ∀ m ∈ marks, m.isKept = false ∧ m.isRefresh = false)
    (hv : d'.vault = d.vault.rejecting (rejected marks)) : d'.Pending v := by
  obtain ⟨news, w, older, hrecord, hnews, hvault⟩ := h
  refine ⟨marks ++ news, w, older, by rw [hr, hrecord, List.append_assoc], ?_, ?_⟩
  · exact fun m hmem => (List.mem_append.mp hmem).elim (hm m) (hnews m)
  · rw [hv, hvault, rejected_append, Vault.rejecting_append]

/-- An access belongs to the end of a refresh, or gets the lock, or leaves the vault alone. -/
theorem Act.cases (h : Act buffer date vault v a b marks vault') :
    (∃ result, a = .keeping result ∧ b = .closing result) ∨
      (∃ result, a = .closing result ∧ b = .served result) ∨
      (∃ o, a = .waiting o ∧ b = .inside o ∧ marks = [.entered v vault] ∧ vault' = vault) ∨
      (b.holds → a.holds) ∧ (∀ result, a ≠ .closing result) ∧ vault' = vault ∧ rejected marks = [] ∧
        ∀ m ∈ marks, m.isKept = false ∧ m.isRefresh = false := by
  cases h with
  | keep => exact .inl ⟨_, rfl, rfl⟩
  | close => exact .inr (.inl ⟨_, rfl, rfl⟩)
  | take => exact .inr (.inr (.inl ⟨_, rfl, rfl, rfl, rfl⟩))
  | share ha =>
    refine .inr (.inr (.inr ⟨by simp [Visit.holds], ?_, rfl, rfl, ?_⟩))
    · rcases ha with rfl | rfl <;> simp
    · simp [VisitMark.isKept, VisitMark.isRefresh]
  | _ =>
    refine .inr (.inr (.inr ⟨?_, by simp, rfl, rfl, ?_⟩))
    · simp [Visit.holds]
    · simp [VisitMark.isKept, VisitMark.isRefresh]

theorem pending_step (hk : d.Locked)
    (h : ∀ v, (d.visit v).holds → (∀ result, d.visit v ≠ .closing result) → d.Pending v)
    (hs : Step buffer d d') (hh : (d'.visit u).holds) (hno : ∀ result, d'.visit u ≠ .closing result) :
    d'.Pending u := by
  cases hs with
  | @act v stage marks vault hact hl =>
    rw [visit_after] at hh hno
    by_cases huv : u = v
    · subst huv
      rw [if_pos rfl] at hh hno
      rcases hact.cases with ⟨result, -, hb⟩ | ⟨result, -, hb⟩ | ⟨o, -, -, rfl, rfl⟩ |
        ⟨hb, ha, rfl, hr, hm⟩
      · exact absurd hb (hno result)
      · rw [hb] at hh
        cases hh
      · exact ⟨[], _, _, rfl, by simp, rfl⟩
      · exact (h u (hb hh) ha).extend _ rfl hm (by rw [hr]; rfl)
    · rw [if_neg huv] at hh hno
      -- Nobody else has the lock, or gets it.
      have hout : ¬ (d.visit v).holds := fun hv => huv (hk.only hh hv)
      have hstage : ¬ stage.holds := by
        intro hb
        rcases hl hb with hv | hfree
        · exact hout hv
        · rw [(hk u).mp hh] at hfree
          cases hfree
      rcases hact.cases with ⟨result, ha, -⟩ | ⟨result, ha, -⟩ | ⟨o, -, hb, -⟩ | ⟨-, -, rfl, hr, hm⟩
      · exact absurd (by rw [ha]; rfl) hout
      · exact absurd (by rw [ha]; rfl) hout
      · exact absurd (by rw [hb]; rfl) hstage
      · exact (h u hh hno).extend _ rfl hm (by rw [hr]; rfl)
  | date => exact (h u hh hno).extend [] rfl (by simp) rfl
  | invalidate token =>
    exact (h u hh hno).extend [.invalidated token] rfl
      (by simp [VisitMark.isKept, VisitMark.isRefresh]) rfl

theorem Reaches.pending (h : Reaches buffer (.start date vault) d) :
    ∀ v, (d.visit v).holds → (∀ result, d.visit v ≠ .closing result) → d.Pending v := by
  induction h with
  | refl =>
    intro v hh
    cases hh
  | tail hr hs ih =>
    exact fun u hh hno => pending_step ((Locked.start date vault).reaches hr) ih hs hh hno

/-- The result was in the vault at the start, or some refresh came to it, and it was stored. -/
def Source (vault : Vault) (d : Lobby) (result : Except Failure Credential) : Prop :=
  vault.Gives result ∨ ∃ u, .kept u result ∈ d.record

theorem Source.mono {result : Except Failure Credential} (h : Source vault d result)
    (hr : d'.record = marks ++ d.record) : Source vault d' result :=
  h.imp_right fun ⟨u, hu⟩ => ⟨u, hr ▸ List.mem_append_right _ hu⟩

theorem Act.supplies (h : Act buffer date vault v a b marks vault') :
    (∀ own, vault'.Gives own → vault.Gives own ∨ .kept v own ∈ marks) ∧
      (∀ own, b = .served own → vault.Gives own ∨ a = .closing own) ∧
      ∀ own, b = .closing own → .kept v own ∈ marks := by
  cases h with
  | keep =>
    refine ⟨fun own hg => ?_, by simp, by simp⟩
    rcases Vault.gives_keep hg with rfl | hg
    · exact .inr List.mem_cons_self
    · exact .inl hg
  | close => exact ⟨fun own hg => .inl (Vault.gives_count.mp hg), by simp, by simp⟩
  | hit hu | share _ hu =>
    refine ⟨fun _ => .inl, ?_, by simp⟩
    rintro own ⟨⟩
    exact .inl (Vault.usable?_eq_some.mp hu).1
  | shareFailure hf =>
    refine ⟨fun _ => .inl, ?_, by simp⟩
    rintro own ⟨⟩
    exact .inl hf
  | _ => exact ⟨fun _ => .inl, by simp, by simp⟩

/-- All that visits were given, and all that they may find, has a source. -/
structure Supplied (vault : Vault) (d : Lobby) : Prop where
  served : ∀ v result, d.visit v = .served result → Source vault d result
  closing : ∀ v result, d.visit v = .closing result → .kept v result ∈ d.record
  stored : ∀ result, d.vault.Gives result → Source vault d result

theorem Supplied.step (h : Supplied vault d) (hs : Step buffer d d') : Supplied vault d' := by
  cases hs with
  | @act v stage marks vault' hact hl =>
    obtain ⟨hgives, hserved, hclosing⟩ := hact.supplies
    have hr : (d.after v stage marks vault').record = marks ++ d.record := rfl
    refine ⟨fun u result hu => ?_, fun u result hu => ?_, fun result hg => ?_⟩
    · rw [visit_after] at hu
      by_cases huv : u = v
      · rw [if_pos huv] at hu
        rcases hserved result hu with hg | ha
        · exact (h.stored result hg).mono hr
        · exact .inr ⟨v, List.mem_append_right _ (h.closing v result ha)⟩
      · rw [if_neg huv] at hu
        exact (h.served u result hu).mono hr
    · rw [visit_after] at hu
      by_cases huv : u = v
      · subst huv
        rw [if_pos rfl] at hu
        exact List.mem_append_left _ (hclosing result hu)
      · rw [if_neg huv] at hu
        exact List.mem_append_right _ (h.closing u result hu)
    · rcases hgives result hg with hg | hm
      · exact (h.stored result hg).mono hr
      · exact .inr ⟨v, List.mem_append_left _ hm⟩
  | date => exact ⟨h.served, h.closing, h.stored⟩
  | invalidate token =>
    have hr : (d.rejecting token).record = [.invalidated token] ++ d.record := rfl
    refine ⟨fun u result hu => (h.served u result hu).mono hr, fun u result hu => ?_, ?_⟩
    · exact List.mem_cons_of_mem _ (h.closing u result hu)
    · exact fun result hg => (h.stored result (Vault.gives_invalidate.mp hg)).mono hr

theorem Reaches.supplied (h : Reaches buffer (.start date vault) d) : Supplied vault d := by
  induction h with
  | refl => exact ⟨by simp [Lobby.start], by simp [Lobby.start], fun _ => .inl⟩
  | tail _ hs ih => exact ih.step hs

theorem Act.not_gone : ¬ Act buffer date vault v .gone b marks vault' := by
  intro h
  cases h with
  | share ha => rcases ha with ha | ha <;> cases ha

theorem gone_step (hv : d.visit v = .gone) (hs : Step buffer d d') : d'.visit v = .gone := by
  cases hs with
  | @act u stage marks vault hact hl =>
    rw [visit_after, if_neg]
    · exact hv
    · rintro rfl
      exact Act.not_gone (hv ▸ hact)
  | date | invalidate => exact hv

theorem gone_reaches (hv : d.visit v = .gone) (hr : Reaches buffer d d') : d'.visit v = .gone := by
  induction hr with
  | refl => exact hv
  | tail _ hs ih => exact gone_step ih hs

/-- A visit that is gone stored nothing. -/
theorem Placed.not_kept (h : d.Placed buffer) (hv : d.visit v = .gone)
    (result : Except Failure Credential) : .kept v result ∉ d.record := by
  intro hm
  have hown : .kept v result ∈ d.marksOf v := mem_marksOf.mpr ⟨hm, rfl⟩
  have hstand := h v
  rw [hv] at hstand
  rcases hstand with ⟨o, hq⟩ | ⟨o, w, answers, hr⟩
  · exact hq.looks d.vault _ hown
  · rcases hr.looks _ hown with hlooks | ⟨answer, -, heq⟩
    · exact hlooks
    · cases heq

/-- When the lock is free, whoever waits for it is answered, though it may have to ask for a token. -/
theorem served_of_waiting {o : Nat} (hv : d.visit v = .waiting o) (hfree : d.holder = none) (f : Failure) :
    ∃ own d', Reaches buffer d d' ∧ d'.visit v = .served own := by
  have hreach {own : Except Failure Credential} {marks : List VisitMark} {vault : Vault}
      (hspree : Spree buffer d.date v (.waiting o) d.vault (.served own) marks vault) :
      ∃ own d', Reaches buffer d d' ∧ d'.visit v = .served own :=
    ⟨own, _, Spree.reaches (hv ▸ hspree) (.inr hfree), by rw [visit_after, if_pos rfl]⟩
  cases hu : d.vault.usable? d.date buffer with
  | some c => exact hreach (.share hu)
  | none =>
    by_cases hg : d.vault.generation = o ∨ d.vault.lastFailure = none
    · obtain ⟨marks, hspree, -⟩ := Spree.refresh hu hg
      exact hreach ((((hspree.tail (.exchange (.error f))).tail .fail).tail .keep).tail .close)
    · obtain ⟨hgen, hf⟩ := not_or.mp hg
      obtain ⟨failure, hfailure⟩ := Option.ne_none_iff_exists'.mp hf
      exact hreach (.shareFailure hu hgen hfailure)

/-- The visit is given up. -/
def abandoned (d : Lobby) (v : Nat) : Lobby := d.after v .gone [] d.vault

/-- What becomes of the rest when a visit is given up that waits for the lock, or refreshes the credential,
where the vault was `first` at the start. -/
structure Abandonment (buffer : Span) (first : Vault) (d : Lobby) (v : Nat) : Prop where
  vault : (d.abandoned v).vault = d.vault
  holder : (d.abandoned v).holder = if (d.visit v).holds then none else d.holder
  unfinished : (d.visit v).holds → ∃ news w older, d.record = news ++ .entered v w :: older ∧
    (∀ m ∈ news, m.isKept = false ∧ m.isRefresh = false) ∧
      w.Spared (d.abandoned v).vault (rejected news)
  sourced : ∀ d', Reaches buffer (d.abandoned v) d' → ∀ u result, d'.visit u = .served result →
    first.Gives result ∨ ∃ u', u' ≠ v ∧ .kept u' result ∈ d'.record
  answered : (d.abandoned v).holder = none → ∀ u o, (d.abandoned v).visit u = .waiting o →
    ∃ own d', Reaches buffer (d.abandoned v) d' ∧ d'.visit u = .served own

theorem Reaches.abandonment (h : Reaches buffer (.start date vault) d)
    (hv : (∃ o, d.visit v = .waiting o) ∨ ∃ last, d.visit v = .refreshing last) :
    Abandonment buffer vault d v := by
  have hact : Act buffer d.date d.vault v (d.visit v) .gone [] d.vault := by
    rcases hv with ⟨o, ho⟩ | ⟨last, hlast⟩
    · rw [ho]
      exact .giveUp
    · rw [hlast]
      exact .abandon
  have hstep : Step buffer d (d.abandoned v) := .act hact fun hh => by cases hh
  have hgone : (d.abandoned v).visit v = .gone := by rw [abandoned, visit_after, if_pos rfl]
  refine ⟨rfl, rfl, fun hh => ?_, fun d' hr u result hu => ?_, fun hfree u o hu => ?_⟩
  · have hno : ∀ result, d.visit v ≠ .closing result := by
      intro result hc
      rcases hv with ⟨o, ho⟩ | ⟨last, hlast⟩
      · cases ho.symm.trans hc
      · cases hlast.symm.trans hc
    obtain ⟨news, w, older, hrecord, hnews, hvault⟩ := h.pending v hh hno
    exact ⟨news, w, older, hrecord, hnews, hvault ▸ Vault.spared_rejecting w _⟩
  · have hafter : Reaches buffer (.start date vault) d' := (h.tail hstep).trans hr
    refine (hafter.supplied.served u result hu).imp_right fun ⟨u', hkept⟩ => ⟨u', ?_, hkept⟩
    rintro rfl
    exact (Placed.reaches hafter).not_kept (gone_reaches hgone hr) result hkept
  · exact served_of_waiting hu hfree (.internal "unanswered")

end Lobby

/-- A caller that is given up before it has a credential leaves no trace of its refresh, whatever tasks do,
and however the accesses of callers follow one another. -/
theorem Traffic.abandonment_safe {σ : Type} {p : Peer σ} {c : Setup} {w : World σ} {s : Traffic σ}
    (hw : w.Idle) (hj : w.journal = []) (h : Reaches p c ⟨w, []⟩ s) :
    (∀ t ∈ s.tasks, t.stage.isInside → t.deadline.any (· ≤ s.world.now) →
      s.Abandonment p c w t) ∧
    (∃ d, Lobby.Reaches c.buffer (.start w.date w.vault) d ∧ d.Mirrors s) ∧
    ∀ d, Lobby.Reaches c.buffer (.start w.date w.vault) d → ∀ v,
      ((∃ o, d.visit v = .waiting o) ∨ ∃ last, d.visit v = .refreshing last) →
        d.Abandonment c.buffer w.vault v :=
  ⟨fun _ ht hin hd => abandonment hw hj h ht hin hd,
    (Lobby.Mirrors.start hj).reached (.start hw.unlocked) h, fun _ hd _ hv => hd.abandonment hv⟩

/-- One caller has no time at all, and is given up with its exchange in flight while another waits. -/
theorem Traffic.abandonment_safe_in_flight : ∃ (s : Traffic Unit) (t : Task) (d : Lobby),
    Reaches .slow (.plain 0) ⟨.start (.ofNanos 0) (.ofQuota .standard) none (), []⟩ s ∧
    t ∈ s.tasks ∧ t.id = 0 ∧ t.stage.holds ∧ s.world.turnstile = ⟨some 0, [1]⟩ ∧
    s.Abandonment .slow (.plain 0) (.start (.ofNanos 0) (.ofQuota .standard) none ()) t ∧
    (s.expired t).world.turnstile.holder = some 1 ∧
    Lobby.Reaches .zero (.start (.ofNanos 0) .empty) d ∧ d.visit 0 = .refreshing none ∧
    d.visit 1 = .waiting 0 ∧ d.Abandonment .zero .empty 0 := by
  let t : Task := ⟨0, .credential, .start, some .start,
    .awaitingToken ⟨.clientCredentials, 0, none⟩ ⟨nanosPerMilli⟩ (.ok .fresh), .start⟩
  let s : Traffic Unit :=
    ⟨{ World.start (.ofNanos 0) (.ofQuota .standard) none () with
        turnstile := ⟨some 0, [1]⟩
        exchanges := 1
        tasks := 2
        journal := [⟨.start, .exchanged 0 .clientCredentials⟩] },
      [t, ⟨1, .credential, .start, none, .queued 0, .start⟩]⟩
  have hreach : ∃ s', Reaches .slow (.plain 0)
      ⟨.start (.ofNanos 0) (.ofQuota .standard) none (), []⟩ s' ∧ s' = s :=
    ⟨_, Relation.ReflTransGen.refl
      |>.tail (.begin _ _ .credential (some .zero))
      |>.tail (.begin _ _ .credential none)
      |>.tail (.move (.head _) rfl)
      |>.tail (.move (.tail _ (.head _)) rfl)
      |>.tail (.move (.head _) rfl)
      |>.tail (.move (.head _) rfl), rfl⟩
  obtain ⟨_, hs, rfl⟩ := hreach
  have hmiss : Vault.empty.usable? (.ofNanos 0) .zero = none := rfl
  have hfirst : Lobby.Reaches .zero (.start (.ofNanos 0) .empty) _ :=
    Lobby.Spree.reaches (v := 0) ((Lobby.Spree.single (.miss hmiss)).tail .count) (.inr rfl)
  have hsecond := hfirst.trans
    (Lobby.Spree.reaches (v := 1) ((Lobby.Spree.single (.miss hmiss)).tail .count) (.inr rfl))
  have hrefresh := hsecond.trans (Lobby.Spree.reaches (v := 0)
    (((Lobby.Spree.single .take).tail (.lead rfl)).tail (.refresh hmiss)) (.inr rfl))
  obtain ⟨htasks, -, hlobby⟩ := abandonment_safe (World.Idle.start _ _ _ _) rfl hs
  have hgiven := htasks t (.head _) rfl (by decide)
  exact ⟨s, t, _, hs, .head _, rfl, rfl, rfl, hgiven, hgiven.passed rfl, hrefresh, rfl, rfl,
    hlobby _ hrefresh 0 (.inr ⟨none, rfl⟩)⟩

end CatalogClient
