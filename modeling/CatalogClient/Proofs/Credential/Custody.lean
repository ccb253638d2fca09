import CatalogClient.Proofs.Credential.SingleFlight
/-!
What the vault hands out and takes in. A caller is given what is stored and still good, or what it got from
the token endpoint itself; a rejected credential is out of use until another is stored.
-/

namespace CatalogClient

theorem Vault.invalidate_held {v : Vault} {token : String} {c : Credential}
    (hc : v.credential = some c) (ht : c.accessToken = token) :
    (v.invalidate token).credential = some c ∧ (v.invalidate token).rejected = true := by
  have hany : v.credential.any (·.accessToken = token) = true := by simp [hc, ht]
  rw [invalidate, if_pos hany]
  exact ⟨hc, rfl⟩

namespace Lobby

variable {buffer : Span} {vault : Vault} {v : Nat} {marks : List VisitMark} {d d' : Lobby}

/-- The credential is stored, not rejected, and does not expire within the buffer. -/
def Offers (buffer : Span) (d : Lobby) (c : Credential) : Prop :=
  d.vault.credential = some c ∧ d.vault.rejected = false ∧
    ∃ due, c.expiresAt.step? (-buffer.nanos) = some due ∧ ¬ due ≤ d.date

/-- The credential comes from an exchange of the visit. -/
def Fetched (d : Lobby) (v : Nat) (c : Credential) : Prop :=
  ∃ token date, .exchanged v (.ok token) ∈ d.record ∧ Credential.issued token date = .ok c

theorem offers_of_usable {c : Credential} (h : d.vault.usable? d.date buffer = some c) :
    d.Offers buffer c := by
  obtain ⟨hc, hr, hn⟩ := Vault.usable?_eq_some.mp h
  exact ⟨hc, hr, Credential.needsRefresh_eq_false.mp hn⟩

theorem Refreshes.fetched {o : Nat} {w : Vault} {answers : List (Except Failure TokenGrant)}
    {past : List VisitMark} {c : Credential} (h : Refreshes buffer v o w answers past)
    (hy : Yields answers (.ok c)) (hp : ∀ m ∈ past, m ∈ d.marksOf v) : d.Fetched v c := by
  obtain ⟨token, date, hl, hi⟩ := hy
  have hm := hp _ (h.exchanged (List.mem_of_mem_head? hl))
  exact ⟨token, date, (mem_marksOf.mp hm).1, hi⟩

theorem Placed.fetched (h : d.Placed buffer) {c : Credential}
    (hv : d.visit v = .keeping (.ok c) ∨ d.visit v = .closing (.ok c)) : d.Fetched v c := by
  have hstand := h v
  rcases hv with hv | hv
  · rw [hv] at hstand
    obtain ⟨o, w, answers, -, hy, hr⟩ := hstand
    exact hr.fetched hy fun _ hm => hm
  · rw [hv] at hstand
    obtain ⟨o, w, answers, q, -, hy, hr, hp⟩ := hstand
    exact hr.fetched hy fun m hm => by rw [hp]; exact List.mem_cons_of_mem _ hm

theorem Act.serves {date : UtcTime} {vault vault' : Vault} {a b : Visit}
    (h : Act buffer date vault v a b marks vault') {c : Credential} (hb : b = .served (.ok c)) :
    vault.usable? date buffer = some c ∨ a = .closing (.ok c) := by
  cases h with
  | hit hu | share _ hu =>
    cases hb
    exact .inl hu
  | close =>
    cases hb
    exact .inr rfl
  | _ => cases hb

/-- Only storing a credential changes which one is stored and whether it is rejected. -/
theorem Act.keeps {date : UtcTime} {vault vault' : Vault} {a b : Visit}
    (h : Act buffer date vault v a b marks vault') :
    (∃ c, a = .keeping (.ok c) ∧ marks = [.kept v (.ok c)] ∧ vault' = vault.keep (.ok c)) ∨
      vault'.credential = vault.credential ∧ vault'.rejected = vault.rejected := by
  rcases h.storing with ⟨result, rfl, -, rfl, rfl⟩ | ⟨result, -, -, rfl, -⟩ | ⟨rfl, -⟩
  · cases result with
    | ok c => exact .inl ⟨c, rfl, rfl, rfl⟩
    | error f => exact .inr ⟨rfl, rfl⟩
  · exact .inr ⟨rfl, rfl⟩
  · exact .inr ⟨rfl, rfl⟩

/-- Since `before`, a credential was stored, or else `c` is stored and rejected. -/
def Retired (before : List VisitMark) (c : Credential) (d : Lobby) : Prop :=
  ∃ marks, d.record = marks ++ before ∧
    ((∃ v c', .kept v (.ok c') ∈ marks) ∨
      d.vault.credential = some c ∧ d.vault.rejected = true)

theorem Retired.step {before : List VisitMark} {c : Credential} (h : d.Retired before c)
    (hs : Step buffer d d') : d'.Retired before c := by
  obtain ⟨marks, hr, h⟩ := h
  cases hs with
  | @act v stage new vault hact hl =>
    refine ⟨new ++ marks, by simp [after, hr], ?_⟩
    rcases hact.keeps with ⟨c', -, rfl, -⟩ | ⟨hc, hrej⟩
    · exact .inl ⟨v, c', by simp⟩
    · rcases h with ⟨u, c', hm⟩ | ⟨hold, hrejected⟩
      · exact .inl ⟨u, c', List.mem_append_right _ hm⟩
      · exact .inr ⟨hc.trans hold, hrej.trans hrejected⟩
  | date date => exact ⟨marks, hr, h⟩
  | invalidate token =>
    refine ⟨.invalidated token :: marks, by simp [rejecting, hr], ?_⟩
    rcases h with ⟨u, c', hm⟩ | ⟨hold, hrejected⟩
    · exact .inl ⟨u, c', List.mem_cons_of_mem _ hm⟩
    · have hstays := d.vault.stays_invalidate token
      exact .inr ⟨hstays.credential.trans hold, hstays.rejected hrejected⟩

theorem Retired.reaches {before : List VisitMark} {c : Credential} (h : d.Retired before c)
    (hr : Reaches buffer d d') : d'.Retired before c := by
  induction hr with
  | refl => exact h
  | tail _ hs ih => exact ih.step hs

theorem retired_of_rejecting {token : String} {c : Credential} (hc : d.vault.credential = some c)
    (ht : c.accessToken = token) : (d.rejecting token).Retired (d.rejecting token).record c :=
  ⟨[], rfl, .inr (Vault.invalidate_held hc ht)⟩

/-- What callers and the vault may do next. -/
structure Safe (buffer : Span) (d : Lobby) : Prop where
  returned : ∀ d' v c, Step buffer d d' → d'.visit v = .served (.ok c) →
    d.visit v = .served (.ok c) ∨ d.Offers buffer c ∨ d.Fetched v c
  stored : ∀ d', Step buffer d d' → d'.vault.credential ≠ d.vault.credential →
    ∃ v c, d.visit v = .keeping (.ok c) ∧ d.Fetched v c ∧ d'.vault.credential = some c
  /-- A visit whose refresh failed is one of those that are not about to store a credential. -/
  spared : ∀ v stage marks vault, Act buffer d.date d.vault v (d.visit v) stage marks vault →
    (∀ c, d.visit v ≠ .keeping (.ok c)) →
      vault.credential = d.vault.credential ∧ vault.rejected = d.vault.rejected
  matching : ∀ token, (d.rejecting token).vault ≠ d.vault →
    ∃ c, d.vault.credential = some c ∧ c.accessToken = token
  retired : ∀ token c d', d.vault.credential = some c → c.accessToken = token →
    Reaches buffer (d.rejecting token) d' → ∃ marks, d'.record = marks ++ (d.rejecting token).record ∧
      ((∃ v c', .kept v (.ok c') ∈ marks) ∨
        d'.vault.credential = some c ∧ ∀ date, d'.vault.usable? date buffer = none)

theorem Reaches.safe {date : UtcTime} (h : Reaches buffer (.start date vault) d) : d.Safe buffer := by
  have hplaced := Placed.reaches h
  refine ⟨?_, ?_, ?_, ?_, ?_⟩
  · intro d' v c hs hv
    cases hs with
    | @act u stage marks vault hact hl =>
      rw [visit_after] at hv
      by_cases huv : v = u
      · subst huv
        rw [if_pos rfl] at hv
        rcases hact.serves hv with hu | ha
        · exact .inr (.inl (offers_of_usable hu))
        · exact .inr (.inr (hplaced.fetched (.inr ha)))
      · rw [if_neg huv] at hv
        exact .inl hv
    | date | invalidate => exact .inl hv
  · intro d' hs hne
    cases hs with
    | @act u stage marks vault hact hl =>
      rcases hact.keeps with ⟨c, ha, -, rfl⟩ | ⟨hc, -⟩
      · exact ⟨u, c, ha, hplaced.fetched (.inl ha), rfl⟩
      · exact absurd hc hne
    | date => exact absurd rfl hne
    | invalidate token => exact absurd (d.vault.stays_invalidate token).credential hne
  · intro v stage marks vault hact hno
    rcases hact.keeps with ⟨c, ha, -, -⟩ | hsame
    · exact absurd ha (hno c)
    · exact hsame
  · intro token hne
    rcases d.vault.invalidate_cases token with hsame | ⟨hheld, -⟩
    · exact absurd hsame hne
    · exact hheld
  · intro token c d' hc ht hr
    obtain ⟨marks, hrec, hcase⟩ := (retired_of_rejecting hc ht).reaches hr
    refine ⟨marks, hrec, hcase.imp_right fun ⟨hstored, hrej⟩ => ⟨hstored, fun date => ?_⟩⟩
    exact Vault.usable?_eq_none.mpr fun _ _ => .inl hrej

end Lobby

namespace Traffic

variable {σ : Type} {p : Peer σ} {c : Setup} {w w' : World σ} {news : List Entry}

/-- What a step of the tasks does to the credential, and how those that were got came to their tasks. -/
structure Custody (c : Setup) (w w' : World σ) (news : List Entry) : Prop where
  vouched : ∀ e ∈ news, ∀ i credential, e.event = .obtained i (.ok credential) →
    w.usable? c = some credential ∨
      ∃ token, ⟨w.now, .issued i (.ok token)⟩ ∈ news ∧ Credential.issued token w.date = .ok credential
  stored : w'.vault.credential ≠ w.vault.credential → ∃ i token credential,
    ⟨w.now, .issued i (.ok token)⟩ ∈ news ∧ ⟨w.now, .refreshed i (.ok credential)⟩ ∈ news ∧
      Credential.issued token w.date = .ok credential ∧ w'.vault.credential = some credential
  spared : ∀ e ∈ news, ∀ i f, e.event = .refreshed i (.error f) →
    w'.vault.credential = w.vault.credential ∧ w'.vault.rejected = w.vault.rejected
  rejected : w'.vault.rejected → ¬ w.vault.rejected → ∃ e ∈ news, ∃ token credential,
    e.event = .invalidated token ∧ w.vault.credential = some credential ∧
      credential.accessToken = token
  ages : w.vault.Ages w'.vault ∨ ∃ e ∈ news, ∃ i credential, e.event = .refreshed i (.ok credential)

theorem Custody.idle (hv : w'.vault = w.vault) (h : ∀ e ∈ news, ∀ i credential,
    e.event = .obtained i (.ok credential) → w.usable? c = some credential) :
    Custody c w w' news := by
  refine ⟨fun e he i credential hev => .inl (h e he i credential hev), ?_, ?_, ?_, ?_⟩
  · exact fun hne => absurd (congrArg _ hv) hne
  · exact fun _ _ _ _ _ => ⟨congrArg _ hv, congrArg _ hv⟩
  · intro hr hno
    rw [hv] at hr
    exact absurd hr hno
  · rw [hv]
    exact .inl (.refl _)

theorem Custody.rejecting {token : String} (hv : w'.vault = w.vault.invalidate token)
    (hn : ∃ e ∈ news, e.event = .invalidated token)
    (hq : ∀ e ∈ news, ∀ i result, e.event ≠ .obtained i result ∧ e.event ≠ .refreshed i result) :
    Custody c w w' news := by
  have hstays : w.vault.Stays w'.vault := hv ▸ w.vault.stays_invalidate token
  refine ⟨?_, ?_, ?_, ?_, .inl hstays.ages⟩
  · exact fun e he i credential hev => absurd hev (hq e he i _).1
  · exact fun hne => absurd hstays.credential hne
  · exact fun e he i f hev => absurd hev (hq e he i _).2
  · intro hr hno
    rcases w.vault.invalidate_cases token with hsame | ⟨⟨credential, hc, ht⟩, -⟩
    · rw [hv, hsame] at hr
      exact absurd hr hno
    · obtain ⟨e, he, hev⟩ := hn
      exact ⟨e, he, token, credential, hev, hc, ht⟩

theorem Custody.issued {i : Nat} {token : TokenGrant} {credential : Credential}
    (hv : w'.vault = w.vault.refreshed (.ok credential))
    (hi : Credential.issued token w.date = .ok credential) :
    Custody c w w' [⟨w.now, .obtained i (.ok credential)⟩, ⟨w.now, .refreshed i (.ok credential)⟩,
      ⟨w.now, .issued i (.ok token)⟩] := by
  refine ⟨?_, ?_, ?_, ?_, ?_⟩
  · intro e he j c' hev
    simp only [List.mem_cons, List.not_mem_nil, or_false] at he
    rcases he with rfl | rfl | rfl
    · cases hev
      exact .inr ⟨token, by simp, hi⟩
    · cases hev
    · cases hev
  · exact fun _ => ⟨i, token, credential, by simp, by simp, hi, by rw [hv]; rfl⟩
  · intro e he j f hev
    simp only [List.mem_cons, List.not_mem_nil, or_false] at he
    rcases he with rfl | rfl | rfl <;> cases hev
  · intro hr
    rw [hv] at hr
    cases hr
  · exact .inr ⟨_, List.mem_cons_of_mem _ (List.mem_cons_self ..), i, credential, rfl⟩

theorem Custody.failed {f : Failure} (hv : w'.vault = w.vault.refreshed (.error f))
    (hn : ∀ e ∈ news, ∀ i credential, e.event ≠ .obtained i (.ok credential)) :
    Custody c w w' news := by
  have hc : w'.vault.credential = w.vault.credential := by rw [hv]; rfl
  have hr : w'.vault.rejected = w.vault.rejected := by rw [hv]; rfl
  refine ⟨?_, fun hne => absurd hc hne, fun _ _ _ _ _ => ⟨hc, hr⟩, ?_, .inl ⟨hc, by simp [hr]⟩⟩
  · exact fun e he i credential hev => absurd hev (hn e he i credential)
  · intro hr' hno
    rw [hr] at hr'
    exact absurd hr' hno

theorem Custody.move {t t' : Task} (h : t.Move p c w w' t') :
    ∃ news, w'.journal = news ++ w.journal ∧ Custody c w w' news := by
  cases h with
  | found hs hu | shared hs hh hu =>
    refine ⟨[_], rfl, .idle rfl ?_⟩
    intro e he i credential hev
    cases List.mem_singleton.mp he
    cases hev
    exact hu
  | issued hs hw hi => exact ⟨[_, _, _], rfl, .issued rfl hi⟩
  | refreshFailed => exact ⟨[_, _, _], rfl, .failed rfl (by simp)⟩
  | @reject credential => exact ⟨[_, _], rfl, .rejecting rfl ⟨_, .head _, rfl⟩ (by simp)⟩
  | stray | refused | lined | refresh | idle => exact ⟨[], rfl, .idle rfl (by simp)⟩
  | granted | sharedFailure | exchange | rest | fallBack | send | succeed | fail | retry =>
    exact ⟨[_], rfl, .idle rfl (by simp)⟩
  | slow => exact ⟨[_, _], rfl, .idle rfl (by simp)⟩

theorem Custody.step {s s' : Traffic σ} (h : Step p c s s') :
    ∃ news, s'.world.journal = news ++ s.world.journal ∧ Custody c s.world s'.world news := by
  cases h with
  | move ht hm => exact Custody.move (Task.step_move hm)
  | begin | drop | elapse | date | limit => exact ⟨[], rfl, .idle rfl (by simp)⟩
  | expire => exact ⟨[_], rfl, .idle rfl (by simp)⟩
  | invalidate => exact ⟨[_], rfl, .rejecting rfl ⟨_, .head _, rfl⟩ (by simp)⟩

/-- As long as no refresh succeeds, the stored credential stays, and stays rejected. -/
theorem Custody.reaches {s s' : Traffic σ} (h : Reaches p c s s') :
    ∃ news, s'.world.journal = news ++ s.world.journal ∧
      (s.world.vault.Ages s'.world.vault ∨
        ∃ e ∈ news, ∃ i credential, e.event = .refreshed i (.ok credential)) := by
  induction h with
  | refl => exact ⟨[], rfl, .inl (.refl _)⟩
  | tail _ hs ih =>
    obtain ⟨old, hold, hages⟩ := ih
    obtain ⟨new, hnew, hcustody⟩ := step hs
    refine ⟨new ++ old, by rw [hnew, hold, List.append_assoc], ?_⟩
    rcases hages with hages | ⟨e, he, hev⟩
    · rcases hcustody.ages with hmore | ⟨e, he, hev⟩
      · exact .inl (hages.trans hmore)
      · exact .inr ⟨e, List.mem_append_left _ he, hev⟩
    · exact .inr ⟨e, List.mem_append_right _ he, hev⟩

/-- What the next step does, and what the tasks do with a credential after its token was rejected. -/
structure Safe (p : Peer σ) (c : Setup) (s : Traffic σ) : Prop where
  custody : ∀ s', Step p c s s' →
    ∃ news, s'.world.journal = news ++ s.world.journal ∧ Custody c s.world s'.world news
  retired : ∀ credential s', s.world.vault.credential = some credential →
    Reaches p c ⟨s.world.invalidate credential.accessToken, s.tasks⟩ s' →
      ∃ news, s'.world.journal = news ++ (s.world.invalidate credential.accessToken).journal ∧
        ((∃ e ∈ news, ∃ i c', e.event = .refreshed i (.ok c')) ∨
          s'.world.vault.credential = some credential ∧
            ∀ date, s'.world.vault.usable? date c.buffer = none)

theorem safe (s : Traffic σ) : s.Safe p c := by
  refine ⟨fun _ hs => Custody.step hs, fun credential s' hc hr => ?_⟩
  obtain ⟨news, hj, hages | hnew⟩ := Custody.reaches hr
  · obtain ⟨hheld, hrejected⟩ := Vault.invalidate_held hc rfl
    refine ⟨news, hj, .inr ⟨hages.credential.trans hheld, fun date => ?_⟩⟩
    exact Vault.usable?_eq_none.mpr fun _ _ => .inl (hages.rejected hrejected)
  · exact ⟨news, hj, .inl hnew⟩

/-- Whatever tasks do is what callers could have done who go their way one access at a time, and neither
is given, stores or rejects a credential out of turn. -/
theorem credential_safe {w : World σ} {s : Traffic σ} (hl : w.turnstile = .free) (hj : w.journal = [])
    (h : Reaches p c ⟨w, []⟩ s) :
    s.Safe p c ∧ (∃ d, Lobby.Reaches c.buffer (.start w.date w.vault) d ∧ d.Mirrors s) ∧
      ∀ d, Lobby.Reaches c.buffer (.start w.date w.vault) d → d.Safe c.buffer :=
  ⟨s.safe, (Lobby.Mirrors.start hj).reached (.start hl) h, fun _ hd => Lobby.Reaches.safe hd⟩

/-- A third caller is given the credential that two have waited for. Once its token is rejected, no task
is given it. -/
theorem credential_safe_rejected : ∃ (s : Traffic Unit) (d d' : Lobby),
    Reaches .slow (.plain 0) ⟨.start (.ofNanos 0) (.ofQuota .standard) none (), []⟩ s ∧
    Journal.custody s.world.journal = [.obtained 1 (.ok .fresh), .obtained 0 (.ok .fresh),
      .refreshed 0 (.ok .fresh), .issued 0 (.ok .fresh)] ∧
    (∀ s', Reaches .slow (.plain 0) ⟨s.world.invalidate "token", s.tasks⟩ s' →
      ∃ news, s'.world.journal = news ++ (s.world.invalidate "token").journal ∧
        ((∃ e ∈ news, ∃ i c', e.event = .refreshed i (.ok c')) ∨
          s'.world.vault.credential = some .fresh ∧
            ∀ date, s'.world.vault.usable? date .zero = none)) ∧
    Lobby.Reaches .zero (.start (.ofNanos 0) .empty) d ∧
    Lobby.Step .zero d d' ∧ d'.visit 2 = .served (.ok .fresh) ∧ d.Offers .zero .fresh := by
  obtain ⟨s, hreach, hj, hvault⟩ := two_tasks
  obtain ⟨d, hd, hdate, hstored, -, hthird, hrecord⟩ := Lobby.two_callers
  obtain ⟨hsafe, -, hall⟩ := credential_safe rfl rfl hreach
  have hretired := fun s' hr => hsafe.retired .fresh s' (by rw [hvault]; rfl) hr
  have hlobby : d.Safe .zero := hall d hd
  have hact : Lobby.Act .zero d.date d.vault 2 (d.visit 2) (.served (.ok .fresh))
      [.served 2 (.ok .fresh), .checked 2 d.date d.vault] d.vault := by
    rw [hthird]
    exact .hit (by rw [hdate, hstored]; exact Vault.fresh_usable)
  have hstep : Lobby.Step .zero d _ := .act hact (fun hh => by cases hh)
  have hserved : (d.after 2 (.served (.ok .fresh)) [.served 2 (.ok .fresh), .checked 2 d.date d.vault]
      d.vault).visit 2 = .served (.ok .fresh) := by
    rw [Lobby.visit_after, if_pos rfl]
  refine ⟨s, d, _, hreach, hj, hretired, hd, hstep, hserved, ?_⟩
  rcases hlobby.returned _ 2 .fresh hstep hserved with hold | hoffers | ⟨token, date, hm, -⟩
  · rw [hthird] at hold
    cases hold
  · exact hoffers
  · simp [hrecord] at hm

end Traffic

end CatalogClient
