import CatalogClient.Proofs.Credential.Lobby
/-!
One visit among others. While it has the lock, nothing happens to the vault but that its token is rejected;
before and after, anything does. What a visit leaves in the record is told by where it stands.
-/

namespace CatalogClient

namespace Vault

/-- What the vault may become while somebody else has the lock. -/
structure Stays (v v' : Vault) : Prop where
  credential : v'.credential = v.credential
  lastFailure : v'.lastFailure = v.lastFailure
  generation : v'.generation = v.generation
  rejected : v.rejected → v'.rejected

theorem Stays.refl (v : Vault) : v.Stays v := ⟨rfl, rfl, rfl, id⟩

theorem Stays.trans {v v' v'' : Vault} (h : v.Stays v') (h' : v'.Stays v'') : v.Stays v'' :=
  ⟨h'.credential.trans h.credential, h'.lastFailure.trans h.lastFailure,
    h'.generation.trans h.generation, h'.rejected ∘ h.rejected⟩

theorem stays_invalidate (v : Vault) (token : String) : v.Stays (v.invalidate token) := by
  rcases v.invalidate_cases token with h | ⟨-, h⟩
  · rw [h]
    exact .refl v
  · rw [h]
    exact ⟨rfl, rfl, rfl, fun _ => rfl⟩

/-- The vault later on, as long as no credential is stored. -/
structure Ages (v v' : Vault) : Prop where
  credential : v'.credential = v.credential
  rejected : v.rejected → v'.rejected

theorem Ages.refl (v : Vault) : v.Ages v := ⟨rfl, id⟩

theorem Ages.trans {v v' v'' : Vault} (h : v.Ages v') (h' : v'.Ages v'') : v.Ages v'' :=
  ⟨h'.credential.trans h.credential, h'.rejected ∘ h.rejected⟩

theorem Stays.ages {v v' : Vault} (h : v.Stays v') : v.Ages v' := ⟨h.credential, h.rejected⟩

theorem Shows.stays {v v' : Vault} {result : Except Failure Credential} (h : v.Shows result)
    (hs : v.Stays v') : v'.Shows result :=
  h.of_eq hs.credential hs.lastFailure

end Vault

namespace Lobby

variable {buffer : Span} {date : UtcTime} {vault vault' w : Vault} {v o : Nat} {a b : Visit}
  {marks q past : List VisitMark} {answers : List (Except Failure TokenGrant)}
  {result : Except Failure Credential} {d d' : Lobby}

/-- What a visit did. -/
def marksOf (d : Lobby) (v : Nat) : List VisitMark := d.record.filter (·.visit? = some v)

theorem mem_marksOf {m : VisitMark} : m ∈ d.marksOf v ↔ m ∈ d.record ∧ m.visit? = some v := by
  simp [marksOf]

theorem marksOf_after (h : Act buffer d.date d.vault v (d.visit v) b marks vault) (u : Nat) :
    (d.after v b marks vault).marksOf u = if u = v then marks ++ d.marksOf v else d.marksOf u := by
  have hown := h.own
  simp only [marksOf, after, List.filter_append]
  by_cases huv : u = v
  · subst huv
    rw [if_pos rfl, List.filter_eq_self.mpr fun m hm => decide_eq_true (hown m hm)]
  · rw [if_neg huv, List.filter_eq_nil_iff.mpr, List.nil_append]
    intro m hm
    simp [hown m hm, Ne.symm huv]

/-- Found nothing usable, and read the count of refreshes. -/
def Queued (buffer : Span) (v o : Nat) (past : List VisitMark) : Prop :=
  ∃ date w, w.usable? date buffer = none ∧ past = [.counted v o, .checked v date w]

/-- Got the lock when the vault was `w`. -/
def Entered (buffer : Span) (v o : Nat) (w : Vault) (past : List VisitMark) : Prop :=
  ∃ q, Queued buffer v o q ∧ past = .entered v w :: q

/-- Looked with the lock, and found nothing usable. -/
def Lacks (buffer : Span) (v : Nat) (w : Vault) (q past : List VisitMark) : Prop :=
  ∃ date w', w.Stays w' ∧ w'.usable? date buffer = none ∧ past = .woke v date w' :: q

/-- No refresh was counted since it read the count, or none that failed. -/
def Leads (buffer : Span) (v o : Nat) (w : Vault) (past : List VisitMark) : Prop :=
  (w.generation = o ∧ Entered buffer v o w past) ∨
    w.lastFailure = none ∧ ∃ q, Entered buffer v o w q ∧ Lacks buffer v w q past

/-- Looks once more with the lock. -/
def Inside (buffer : Span) (v o : Nat) (w : Vault) (past : List VisitMark) : Prop :=
  Entered buffer v o w past ∨ Leads buffer v o w past

def Refreshes (buffer : Span) (v o : Nat) (w : Vault) (answers : List (Except Failure TokenGrant))
    (past : List VisitMark) : Prop :=
  ∃ q q', Leads buffer v o w q ∧ Lacks buffer v w q q' ∧ past = answers.map (.exchanged v) ++ q'

/-- What a refresh comes to is what its last answer comes to. -/
def Yields (answers : List (Except Failure TokenGrant)) : Except Failure Credential → Prop
  | .ok c => ∃ token date, answers.head? = some (.ok token) ∧ Credential.issued token date = .ok c
  | .error f => answers.head? = some (.error f)

inductive Served (buffer : Span) (v : Nat) : Except Failure Credential → List VisitMark → Prop
  | found {date : UtcTime} {w : Vault} {c : Credential} (hu : w.usable? date buffer = some c) :
    Served buffer v (.ok c) [.served v (.ok c), .checked v date w]
  | shared {o : Nat} {w w' : Vault} {q : List VisitMark} {date : UtcTime} {c : Credential}
    (hq : Inside buffer v o w q) (hs : w.Stays w') (hu : w'.usable? date buffer = some c) :
    Served buffer v (.ok c) (.served v (.ok c) :: .woke v date w' :: q)
  | sharedFailure {o : Nat} {w : Vault} {q past : List VisitMark} {f : Failure}
    (hq : Entered buffer v o w q) (hp : Lacks buffer v w q past) (ho : w.generation ≠ o)
    (hf : w.lastFailure = some f) :
    Served buffer v (.error f) (.served v (.error f) :: past)
  | refreshed {o : Nat} {w : Vault} {past : List VisitMark}
    {answers : List (Except Failure TokenGrant)} {result : Except Failure Credential}
    (hr : Refreshes buffer v o w answers past) (hy : Yields answers result) :
    Served buffer v result
      (.served v result :: .refreshed v (w.generation + 1) result :: .kept v result :: past)

/-- What a visit has done that stands at a stage, and what it knows of the vault. -/
def Standing (buffer : Span) (v : Nat) (past : List VisitMark) (vault : Vault) : Visit → Prop
  | .arriving => past = []
  | .missed => ∃ date w, w.usable? date buffer = none ∧ past = [.checked v date w]
  | .waiting o => Queued buffer v o past
  | .inside o => ∃ w, w.Stays vault ∧ Entered buffer v o w past
  | .behind => ∃ o w, w.Stays vault ∧ w.generation ≠ o ∧ Entered buffer v o w past
  | .sharing => ∃ o w q, w.Stays vault ∧ w.generation ≠ o ∧ Entered buffer v o w q ∧
      Lacks buffer v w q past
  | .leading => ∃ o w, w.Stays vault ∧ Leads buffer v o w past
  | .refreshing last => ∃ o w answers, w.Stays vault ∧ answers.head? = last ∧
      Refreshes buffer v o w answers past
  | .keeping result => ∃ o w answers, w.Stays vault ∧ Yields answers result ∧
      Refreshes buffer v o w answers past
  | .closing result => ∃ o w answers q, vault.generation = w.generation ∧ Yields answers result ∧
      Refreshes buffer v o w answers q ∧ past = .kept v result :: q
  | .served result => Served buffer v result past
  | .gone => (∃ o, Queued buffer v o past) ∨ ∃ o w answers, Refreshes buffer v o w answers past

theorem Standing.act (h : Standing buffer v past vault a)
    (ha : Act buffer date vault v a b marks vault') :
    Standing buffer v (marks ++ past) vault' b := by
  cases ha with
  | hit hu =>
    cases h
    exact .found hu
  | miss hu =>
    cases h
    exact ⟨date, vault, hu, rfl⟩
  | count =>
    obtain ⟨date, w, hu, rfl⟩ := h
    exact ⟨date, w, hu, rfl⟩
  | take => exact ⟨vault, .refl vault, past, h, rfl⟩
  | lag hg =>
    obtain ⟨w, hs, he⟩ := h
    exact ⟨_, w, hs, hs.generation ▸ hg, he⟩
  | lead hg =>
    obtain ⟨w, hs, he⟩ := h
    exact ⟨_, w, hs, .inl ⟨hs.generation ▸ hg, he⟩⟩
  | share ha hu =>
    rcases ha with rfl | rfl
    · obtain ⟨o, w, hs, -, he⟩ := h
      exact .shared (.inl he) hs hu
    · obtain ⟨o, w, hs, hl⟩ := h
      exact .shared (.inr hl) hs hu
  | lack hu =>
    obtain ⟨o, w, hs, hg, he⟩ := h
    exact ⟨o, w, past, hs, hg, he, date, vault, hs, hu, rfl⟩
  | shareFailure hf =>
    obtain ⟨o, w, q, hs, hg, he, hl⟩ := h
    exact .sharedFailure he hl hg (hs.lastFailure ▸ hf)
  | follow hf =>
    obtain ⟨o, w, q, hs, -, he, hl⟩ := h
    exact ⟨o, w, hs, .inr ⟨hs.lastFailure ▸ hf, q, he, hl⟩⟩
  | refresh hu =>
    obtain ⟨o, w, hs, hl⟩ := h
    exact ⟨o, w, [], hs, rfl, past, _, hl, ⟨date, vault, hs, hu, rfl⟩, rfl⟩
  | exchange answer =>
    obtain ⟨o, w, answers, hs, -, q, q', hl, hq, rfl⟩ := h
    exact ⟨o, w, answer :: answers, hs, rfl, q, q', hl, hq, rfl⟩
  | issue hi =>
    obtain ⟨o, w, answers, hs, hl, hr⟩ := h
    exact ⟨o, w, answers, hs, ⟨_, _, hl, hi⟩, hr⟩
  | fail =>
    obtain ⟨o, w, answers, hs, hl, hr⟩ := h
    exact ⟨o, w, answers, hs, hl, hr⟩
  | keep =>
    obtain ⟨o, w, answers, hs, hy, hr⟩ := h
    exact ⟨o, w, answers, past, (vault.generation_keep _).trans hs.generation, hy, hr, rfl⟩
  | close =>
    obtain ⟨o, w, answers, q, hg, hy, hr, rfl⟩ := h
    rw [hg]
    exact .refreshed hr hy
  | giveUp => exact .inl ⟨_, h⟩
  | abandon =>
    obtain ⟨o, w, answers, -, -, hr⟩ := h
    exact .inr ⟨o, w, answers, hr⟩

theorem Standing.meanwhile (h : Standing buffer v past vault a)
    (hv : a.holds → vault.Stays vault') : Standing buffer v past vault' a := by
  cases a with
  | arriving | missed | waiting | served | gone => exact h
  | inside o =>
    obtain ⟨w, hs, h⟩ := h
    exact ⟨w, hs.trans (hv rfl), h⟩
  | behind =>
    obtain ⟨o, w, hs, h⟩ := h
    exact ⟨o, w, hs.trans (hv rfl), h⟩
  | sharing =>
    obtain ⟨o, w, q, hs, h⟩ := h
    exact ⟨o, w, q, hs.trans (hv rfl), h⟩
  | leading =>
    obtain ⟨o, w, hs, h⟩ := h
    exact ⟨o, w, hs.trans (hv rfl), h⟩
  | refreshing last | keeping result =>
    obtain ⟨o, w, answers, hs, h⟩ := h
    exact ⟨o, w, answers, hs.trans (hv rfl), h⟩
  | closing result =>
    obtain ⟨o, w, answers, q, hg, h⟩ := h
    exact ⟨o, w, answers, q, (hv rfl).generation.trans hg, h⟩

/-- Every visit stands where its past and the vault allow. -/
def Placed (buffer : Span) (d : Lobby) : Prop :=
  ∀ v, Standing buffer v (d.marksOf v) d.vault (d.visit v)

theorem Placed.step (h : d.Placed buffer) (hk : d.Locked) (hs : Step buffer d d') :
    d'.Placed buffer := by
  intro u
  have hu := h u
  cases hs with
  | @act v stage marks vault hact hl =>
    rw [visit_after, marksOf_after hact]
    change Standing buffer u _ vault _
    by_cases huv : u = v
    · subst huv
      rw [if_pos rfl, if_pos rfl]
      exact hu.act hact
    · rw [if_neg huv, if_neg huv]
      refine hu.meanwhile fun hh => ?_
      have hout : (d.visit v).holds = false := by
        cases hb : (d.visit v).holds with
        | true => exact absurd (hk.only hh hb) huv
        | false => rfl
      rw [hact.vault_eq hout]
      exact .refl _
  | date => exact hu
  | invalidate token =>
    have hown : (d.rejecting token).marksOf u = d.marksOf u := rfl
    rw [hown]
    exact hu.meanwhile fun _ => d.vault.stays_invalidate token

theorem Placed.reaches
    (h : Reaches buffer (.start date vault) d) : d.Placed buffer := by
  induction h with
  | refl => exact fun v => rfl
  | tail hr hs ih => exact ih.step ((Locked.start date vault).reaches hr) hs

/-- Not more than looking: at the vault, at the count, and at the lock. -/
def Looks (buffer : Span) (v o : Nat) (w : Vault) : VisitMark → Prop
  | .checked u date w' => u = v ∧ w'.usable? date buffer = none
  | .woke u .. => u = v
  | .counted u o' => u = v ∧ o' = o
  | .entered u w' => u = v ∧ w' = w
  | _ => False

theorem Queued.looks (h : Queued buffer v o past) (w : Vault) : ∀ m ∈ past, Looks buffer v o w m := by
  obtain ⟨date, w', hu, rfl⟩ := h
  simp [Looks, hu]

theorem Entered.looks (h : Entered buffer v o w past) : ∀ m ∈ past, Looks buffer v o w m := by
  obtain ⟨q, hq, rfl⟩ := h
  intro m hm
  rcases List.mem_cons.mp hm with rfl | hm
  · exact ⟨rfl, rfl⟩
  · exact hq.looks w m hm

theorem Lacks.looks (h : Lacks buffer v w q past) (hq : ∀ m ∈ q, Looks buffer v o w m) :
    ∀ m ∈ past, Looks buffer v o w m := by
  obtain ⟨date, w', -, -, rfl⟩ := h
  intro m hm
  rcases List.mem_cons.mp hm with rfl | hm
  · rfl
  · exact hq m hm

theorem Leads.looks (h : Leads buffer v o w past) : ∀ m ∈ past, Looks buffer v o w m := by
  rcases h with ⟨-, he⟩ | ⟨-, q, he, hl⟩
  · exact he.looks
  · exact hl.looks he.looks

theorem Inside.looks (h : Inside buffer v o w past) : ∀ m ∈ past, Looks buffer v o w m := by
  rcases h with h | h
  · exact h.looks
  · exact h.looks

theorem Refreshes.looks (h : Refreshes buffer v o w answers past) :
    ∀ m ∈ past, Looks buffer v o w m ∨ ∃ answer ∈ answers, m = .exchanged v answer := by
  obtain ⟨q, q', hl, hq, rfl⟩ := h
  intro m hm
  rcases List.mem_append.mp hm with hm | hm
  · obtain ⟨answer, ha, rfl⟩ := List.mem_map.mp hm
    exact .inr ⟨answer, ha, rfl⟩
  · exact .inl (hq.looks hl.looks m hm)

/-- The way to the lock. -/
structure Enters (v o : Nat) (w : Vault) (past : List VisitMark) : Prop where
  checked : ∃ date w', .checked v date w' ∈ past
  counted : .counted v o ∈ past
  entered : .entered v w ∈ past

theorem Enters.mono (h : Enters v o w q) (hq : q ⊆ past) : Enters v o w past := by
  obtain ⟨date, w', hch⟩ := h.checked
  exact ⟨⟨date, w', hq hch⟩, hq h.counted, hq h.entered⟩

theorem Entered.enters (h : Entered buffer v o w past) : Enters v o w past := by
  obtain ⟨q, ⟨date, w', -, rfl⟩, rfl⟩ := h
  exact ⟨⟨date, w', by simp⟩, by simp, by simp⟩

theorem Lacks.subset (h : Lacks buffer v w q past) : q ⊆ past := by
  obtain ⟨date, w', -, -, rfl⟩ := h
  exact List.subset_cons_self _ _

theorem Leads.enters (h : Leads buffer v o w past) : Enters v o w past := by
  rcases h with ⟨-, he⟩ | ⟨-, q, he, hl⟩
  · exact he.enters
  · exact he.enters.mono hl.subset

theorem Inside.enters (h : Inside buffer v o w past) : Enters v o w past := by
  rcases h with h | h
  · exact h.enters
  · exact h.enters

theorem Refreshes.enters (h : Refreshes buffer v o w answers past) : Enters v o w past := by
  obtain ⟨q, q', hl, hq, rfl⟩ := h
  exact (hl.enters.mono hq.subset).mono (List.subset_append_right _ _)

theorem Refreshes.exchanged (h : Refreshes buffer v o w answers past)
    {answer : Except Failure TokenGrant} (ha : answer ∈ answers) : .exchanged v answer ∈ past := by
  obtain ⟨q, q', -, -, rfl⟩ := h
  exact List.mem_append_left _ (List.mem_map_of_mem ha)

theorem Yields.answered (h : Yields answers result) : ∃ answer, answer ∈ answers := by
  cases result with
  | ok c =>
    obtain ⟨token, date, hl, -⟩ := h
    exact ⟨_, List.mem_of_mem_head? hl⟩
  | error f => exact ⟨_, List.mem_of_mem_head? h⟩

/-- The stages of a visit, by what it has done. -/
inductive Phase (buffer : Span) (v : Nat) (a : Visit) (past : List VisitMark) : Prop
  | looking {o : Nat} {w : Vault} (h : ∀ m ∈ past, Looks buffer v o w m)
    (ha : ∀ result, a ≠ .served result)
  | refreshing {o : Nat} {w : Vault} {answers : List (Except Failure TokenGrant)}
    {q : List VisitMark} (hr : Refreshes buffer v o w answers q) (hq : q ⊆ past)
    (hk : ∀ m ∈ past, m ∈ q ∨ ∃ result, m = .kept v result)
  | served {result : Except Failure Credential} (ha : a = .served result)
    (h : Served buffer v result past)

theorem Standing.phase (h : Standing buffer v past vault a) : Phase buffer v a past := by
  have refreshes {o : Nat} {w : Vault} {answers : List (Except Failure TokenGrant)}
      (hr : Refreshes buffer v o w answers past) : Phase buffer v a past :=
    .refreshing hr (List.Subset.refl _) fun _ hm => .inl hm
  cases a with
  | arriving =>
    cases h
    exact .looking (o := 0) (w := vault) (by simp) (by simp)
  | missed =>
    obtain ⟨date, w, hu, rfl⟩ := h
    exact .looking (o := 0) (w := vault) (by simp [Looks, hu]) (by simp)
  | waiting o => exact .looking (h.looks vault) (by simp)
  | inside o =>
    obtain ⟨w, -, h⟩ := h
    exact .looking h.looks (by simp)
  | behind =>
    obtain ⟨o, w, -, -, h⟩ := h
    exact .looking h.looks (by simp)
  | sharing =>
    obtain ⟨o, w, q, -, -, h, hl⟩ := h
    exact .looking (hl.looks h.looks) (by simp)
  | leading =>
    obtain ⟨o, w, -, h⟩ := h
    exact .looking h.looks (by simp)
  | refreshing last | keeping result =>
    obtain ⟨o, w, answers, -, -, hr⟩ := h
    exact refreshes hr
  | closing result =>
    obtain ⟨o, w, answers, q, -, -, hr, rfl⟩ := h
    refine .refreshing hr (List.subset_cons_self _ _) fun m hm => ?_
    rcases List.mem_cons.mp hm with rfl | hm
    · exact .inr ⟨result, rfl⟩
    · exact .inl hm
  | served result => exact .served rfl h
  | gone =>
    rcases h with ⟨o, h⟩ | ⟨o, w, answers, hr⟩
    · exact .looking (h.looks vault) (by simp)
    · exact refreshes hr

/-- No exchange, and an answer that is the stored credential or the failure `f`. -/
def Shares (buffer : Span) (v : Nat) (a : Visit) (marks : List VisitMark) (f : Option Failure) :
    Prop :=
  (∀ answer, .exchanged v answer ∉ marks) ∧
    ∀ result, a = .served result →
      (∃ c date w, result = .ok c ∧ .woke v date w ∈ marks ∧ w.usable? date buffer = some c) ∨
        ∃ f', result = .error f' ∧ f = some f'

/-- With the lock, the credential was seen to be of no use. -/
def Outlives (buffer : Span) (v : Nat) (marks : List VisitMark) (c : Option Credential) : Prop :=
  ∃ date w, .woke v date w ∈ marks ∧ w.credential = c ∧ w.usable? date buffer = none

theorem Outlives.mono {c : Option Credential} (h : Outlives buffer v q c) (hq : q ⊆ past) :
    Outlives buffer v past c := by
  obtain ⟨date, w, hm, h⟩ := h
  exact ⟨date, w, hq hm, h⟩

theorem Refreshes.outlives {o' : Nat} {w' : Vault} (h : Refreshes buffer v o' w' answers past)
    (hc : .counted v o ∈ past) (he : .entered v w ∈ past) (ho : w.generation ≠ o) :
    w.lastFailure = none ∧ Outlives buffer v past w.credential := by
  have hc : o = o' := by
    rcases h.looks _ hc with ⟨-, hc⟩ | ⟨_, _, hm⟩
    · exact hc
    · cases hm
  have he : w = w' := by
    rcases h.looks _ he with ⟨-, he⟩ | ⟨_, _, hm⟩
    · exact he
    · cases hm
  subst hc he
  obtain ⟨q, q', hl, ⟨date, w', hs, hu, rfl⟩, rfl⟩ := h
  rcases hl with ⟨hg, -⟩ | ⟨hf, -⟩
  · exact absurd hg ho
  · exact ⟨hf, date, w', by simp, hs.credential, hu⟩

theorem Served.shares_or_outlives (h : Served buffer v result past) (hc : .counted v o ∈ past)
    (he : .entered v w ∈ past) (ho : w.generation ≠ o) :
    Shares buffer v (.served result) past w.lastFailure ∨
      w.lastFailure = none ∧ Outlives buffer v past w.credential := by
  cases h with
  | found hu => simp at hc
  | @shared o' w₀ w' q date c hq hs hu =>
    refine .inl ⟨fun answer hm => ?_, ?_⟩
    · simp only [List.mem_cons, reduceCtorEq, false_or] at hm
      exact hq.looks _ hm
    · rintro _ ⟨⟩
      exact .inl ⟨c, date, w', rfl, by simp, hu⟩
  | @sharedFailure o' w' q past f hq hp hg hf =>
    have hlooks := hp.looks hq.looks
    simp only [List.mem_cons, reduceCtorEq, false_or] at he
    obtain ⟨-, rfl⟩ := hlooks _ he
    refine .inl ⟨fun answer hm => ?_, ?_⟩
    · simp only [List.mem_cons, reduceCtorEq, false_or] at hm
      exact hlooks _ hm
    · rintro _ ⟨⟩
      exact .inr ⟨f, rfl, hf⟩
  | refreshed hr hy =>
    simp only [List.mem_cons, reduceCtorEq, false_or] at hc he
    obtain ⟨hf, hout⟩ := hr.outlives hc he ho
    exact .inr ⟨hf, hout.mono fun m hm => by simp [hm]⟩

/-- A visit with the lock that finds a newer count either shares what the last refresh came to, or has
seen the credential of that refresh fail it. -/
theorem Standing.shares_or_outlives (h : Standing buffer v past vault a) (hc : .counted v o ∈ past)
    (he : .entered v w ∈ past) (ho : w.generation ≠ o) :
    Shares buffer v a past w.lastFailure ∨
      w.lastFailure = none ∧ Outlives buffer v past w.credential := by
  cases h.phase with
  | looking hlooks ha =>
    exact .inl ⟨fun _ hm => (hlooks _ hm).elim, fun result hr => absurd hr (ha result)⟩
  | refreshing hr hq hk =>
    obtain ⟨hf, hout⟩ :=
      hr.outlives ((hk _ hc).resolve_right (by simp)) ((hk _ he).resolve_right (by simp)) ho
    exact .inr ⟨hf, hout.mono hq⟩
  | served ha h =>
    subst ha
    exact h.shares_or_outlives hc he ho

/-- Only a visit that was served counted a refresh: its own, one after those it found. -/
theorem Standing.refreshed {n : Nat} (h : Standing buffer v past vault a)
    (hm : .refreshed v n result ∈ past) :
    ∃ o w answer, n = w.generation + 1 ∧ .counted v o ∈ past ∧ .entered v w ∈ past ∧
      .exchanged v answer ∈ past := by
  have hrefreshes {o : Nat} {w : Vault} {answers : List (Except Failure TokenGrant)}
      {q : List VisitMark} (hr : Refreshes buffer v o w answers q) : .refreshed v n result ∉ q := by
    intro hm
    rcases hr.looks _ hm with hm | ⟨_, _, hm⟩
    · exact hm
    · cases hm
  cases h.phase with
  | looking hlooks ha => exact (hlooks _ hm).elim
  | refreshing hr hq hk => exact absurd ((hk _ hm).resolve_right (by simp)) (hrefreshes hr)
  | served ha h =>
    cases h with
    | found hu => simp at hm
    | shared hq hs hu =>
      simp only [List.mem_cons, reduceCtorEq, false_or] at hm
      exact (hq.looks _ hm).elim
    | sharedFailure hq hp hg hf =>
      simp only [List.mem_cons, reduceCtorEq, false_or] at hm
      exact (hp.looks hq.looks _ hm).elim
    | @refreshed o w q answers _ hr hy =>
      obtain ⟨answer, ha⟩ := hy.answered
      simp only [List.mem_cons, reduceCtorEq, false_or, VisitMark.refreshed.injEq, true_and] at hm
      rcases hm with ⟨rfl, -⟩ | hm
      · exact ⟨o, w, answer, rfl, by simp [hr.enters.counted], by simp [hr.enters.entered],
          by simp [hr.exchanged ha]⟩
      · exact absurd hm (hrefreshes hr)

/-- How a visit that found nothing usable comes to an answer. -/
theorem Served.waited {date₀ : UtcTime} {w₀ : Vault} (h : Served buffer v result past)
    (hch : .checked v date₀ w₀ ∈ past) (hc : .counted v o ∈ past) :
    ∃ w, .entered v w ∈ past ∧
      ((∃ c date w', .woke v date w' ∈ past ∧ w.Stays w' ∧ w'.usable? date buffer = some c ∧
          w₀.usable? date₀ buffer = none) ∨
        w.generation ≠ o ∨ .refreshed v (w.generation + 1) result ∈ past) := by
  cases h with
  | found hu => simp at hc
  | @shared o' w w' q date c hq hs hu =>
    simp only [List.mem_cons, reduceCtorEq, false_or] at hch
    exact ⟨w, by simp [hq.enters.entered],
      .inl ⟨c, date, w', by simp, hs, hu, (hq.looks _ hch).2⟩⟩
  | @sharedFailure o' w q past f hq hp hg hf =>
    simp only [List.mem_cons, reduceCtorEq, false_or] at hc
    obtain ⟨-, rfl⟩ := hp.looks hq.looks _ hc
    exact ⟨w, by simp [hp.subset hq.enters.entered], .inr (.inl hg)⟩
  | @refreshed o' w q answers _ hr hy =>
    exact ⟨w, by simp [hr.enters.entered], .inr (.inr (by simp))⟩

theorem Served.checked (h : Served buffer v result past) (hc : .counted v o ∈ past) :
    ∃ date w, .checked v date w ∈ past := by
  cases h with
  | found hu => simp at hc
  | shared hq hs hu =>
    obtain ⟨date, w, hch⟩ := hq.enters.checked
    exact ⟨date, w, by simp [hch]⟩
  | sharedFailure hq hp hg hf =>
    obtain ⟨date, w, hch⟩ := hq.enters.checked
    exact ⟨date, w, by simp [hp.subset hch]⟩
  | refreshed hr hy =>
    obtain ⟨date, w, hch⟩ := hr.enters.checked
    exact ⟨date, w, by simp [hch]⟩

/-- Who asked for a token and got an answer made the refresh that counts for it. -/
theorem Served.exchanged {answer : Except Failure TokenGrant} (h : Served buffer v result past)
    (ha : .exchanged v answer ∈ past) : ∃ n, .refreshed v n result ∈ past := by
  cases h with
  | found hu => simp at ha
  | shared hq hs hu =>
    simp only [List.mem_cons, reduceCtorEq, false_or] at ha
    exact (hq.looks _ ha).elim
  | sharedFailure hq hp hg hf =>
    simp only [List.mem_cons, reduceCtorEq, false_or] at ha
    exact (hp.looks hq.looks _ ha).elim
  | @refreshed o w q answers _ hr hy => exact ⟨w.generation + 1, by simp⟩

end Lobby

end CatalogClient
