import CatalogClient.Proofs.Credential.Expiry
import CatalogClient.Proofs.Credential.Mirror
import CatalogClient.Proofs.Credential.Visits
import CatalogClient.Proofs.Pipeline.Runs
/-!
Callers who wait for one refresh. The count of refreshes is the number of them in the record, and whoever
gets the lock finds what the last of them came to.
-/

namespace CatalogClient

namespace Lobby

variable {buffer : Span} {vault : Vault} {v : Nat} {marks : List VisitMark} {d d' : Lobby}

/-- The number of refreshes that have ended. -/
def refreshes (d : Lobby) : Nat := d.record.countP (·.isRefresh)

/-- The count of refreshes starts at `g`, and each of them has the number to which it brought the count. -/
structure Numbered (g : Nat) (d : Lobby) : Prop where
  total : d.vault.generation = g + d.refreshes
  numbers : ∀ u n result, .refreshed u n result ∈ d.record → g < n ∧ n ≤ d.vault.generation
  unique : ∀ u u' n result result', .refreshed u n result ∈ d.record →
    .refreshed u' n result' ∈ d.record → u = u' ∧ result = result'
  each : ∀ n, g < n → n ≤ d.vault.generation → ∃ u result, .refreshed u n result ∈ d.record
  seen : ∀ m ∈ d.record, ∀ n, m.count? = some n → g ≤ n ∧ n ≤ d.vault.generation

theorem Numbered.start (date : UtcTime) (vault : Vault) :
    Numbered vault.generation (.start date vault) := by
  refine ⟨rfl, by simp [Lobby.start], by simp [Lobby.start], ?_, by simp [Lobby.start]⟩
  intro n hg hn
  exact absurd hn (Nat.not_le_of_lt hg)

theorem Numbered.of_record {g : Nat} (h : Numbered g d) (hg : d'.vault.generation = d.vault.generation)
    {marks : List VisitMark} (hr : d'.record = marks ++ d.record)
    (hm : ∀ m ∈ marks, m.isRefresh = false ∧ ∀ n, m.count? = some n → n = d.vault.generation) :
    Numbered g d' := by
  have hnew (u n result) : .refreshed u n result ∈ d'.record ↔ .refreshed u n result ∈ d.record := by
    rw [hr, List.mem_append, or_iff_right]
    intro h
    cases (hm _ h).1
  have hcount : d'.refreshes = d.refreshes := by
    rw [refreshes, hr, List.countP_append, List.countP_eq_zero.mpr, Nat.zero_add, refreshes]
    intro m h
    simp [(hm m h).1]
  refine ⟨by rw [hg, hcount, h.total], ?_, ?_, ?_, ?_⟩
  · intro u n result hu
    rw [hg]
    exact h.numbers u n result ((hnew ..).mp hu)
  · intro u u' n result result' hu hu'
    exact h.unique u u' n result result' ((hnew ..).mp hu) ((hnew ..).mp hu')
  · intro n hn hle
    obtain ⟨u, result, hu⟩ := h.each n hn (hg ▸ hle)
    exact ⟨u, result, (hnew ..).mpr hu⟩
  · intro m hmem n hn
    rw [hr] at hmem
    rw [hg]
    rcases List.mem_append.mp hmem with hmem | hmem
    · rw [(hm m hmem).2 n hn]
      exact ⟨h.total ▸ Nat.le_add_right .., Nat.le_refl _⟩
    · exact h.seen m hmem n hn

theorem Numbered.close {g : Nat} (h : Numbered g d) {result : Except Failure Credential} (stage : Visit) :
    Numbered g (d.after v stage
      [.served v result, .refreshed v (d.vault.generation + 1) result] d.vault.count) := by
  have hnew (u n result') : .refreshed u n result' ∈ (d.after v stage [.served v result,
      .refreshed v (d.vault.generation + 1) result] d.vault.count).record ↔
        (u = v ∧ n = d.vault.generation + 1 ∧ result' = result) ∨
          .refreshed u n result' ∈ d.record := by
    simp [after]
  have hnext : ∀ u result', .refreshed u (d.vault.generation + 1) result' ∉ d.record := by
    intro u result' hu
    exact absurd (h.numbers _ _ _ hu).2 (Nat.not_succ_le_self _)
  refine ⟨?_, ?_, ?_, ?_, ?_⟩
  · have htotal := h.total
    simp only [refreshes] at htotal
    simp [after, refreshes, Vault.count, VisitMark.isRefresh, htotal, Nat.add_assoc]
  · intro u n result' hu
    change g < n ∧ n ≤ d.vault.generation + 1
    have hstart : g ≤ d.vault.generation := h.total ▸ Nat.le_add_right ..
    rcases (hnew ..).mp hu with ⟨-, rfl, -⟩ | hu
    · omega
    · have := h.numbers u n result' hu
      omega
  · intro u u' n result₁ result₂ hu hu'
    rcases (hnew ..).mp hu with ⟨rfl, rfl, rfl⟩ | hold
    · rcases (hnew ..).mp hu' with ⟨rfl, -, rfl⟩ | hold'
      · exact ⟨rfl, rfl⟩
      · exact absurd hold' (hnext _ _)
    · rcases (hnew ..).mp hu' with ⟨rfl, rfl, rfl⟩ | hold'
      · exact absurd hold (hnext _ _)
      · exact h.unique u u' n result₁ result₂ hold hold'
  · intro n hg hn
    change n ≤ d.vault.generation + 1 at hn
    rcases Nat.le_succ_iff.mp hn with hn | rfl
    · obtain ⟨u, result', hu⟩ := h.each n hg hn
      exact ⟨u, result', (hnew ..).mpr (.inr hu)⟩
    · exact ⟨v, result, (hnew ..).mpr (.inl ⟨rfl, rfl, rfl⟩)⟩
  · intro m hm n hn
    have hold : m ∈ d.record := by
      simp only [after, List.cons_append, List.nil_append, List.mem_cons] at hm
      rcases hm with rfl | rfl | hm
      · cases hn
      · cases hn
      · exact hm
    have := h.seen m hold n hn
    exact ⟨this.1, Nat.le_succ_of_le this.2⟩

theorem Numbered.step {g : Nat} (h : Numbered g d) (hs : Step buffer d d') : Numbered g d' := by
  cases hs with
  | @act v stage marks vault hact hl =>
    rcases hact.storing with ⟨result, -, -, rfl, rfl⟩ | ⟨result, -, -, rfl, rfl⟩ | ⟨rfl, -, -, hm⟩
    · exact h.of_record (Vault.generation_keep _ _) rfl (by simp [VisitMark.isRefresh, VisitMark.count?])
    · exact h.close stage
    · exact h.of_record rfl rfl fun m hmem => ⟨(hm m hmem).1, (hm m hmem).2.1⟩
  | date date => exact h.of_record rfl (List.nil_append _).symm (by simp)
  | invalidate token =>
    exact h.of_record (d.vault.stays_invalidate token).generation (List.singleton_append).symm
      (by simp [VisitMark.isRefresh, VisitMark.count?])

/-- Whoever gets the lock finds the vault as the last refresh left it. -/
structure Told (g : Nat) (d : Lobby) : Prop where
  closing : ∀ u result, d.visit u = .closing result → d.vault.Shows result
  shown : (∀ u result, d.visit u ≠ .closing result) → g < d.vault.generation →
    ∃ u result, .refreshed u d.vault.generation result ∈ d.record ∧ d.vault.Shows result
  entered : ∀ u w, .entered u w ∈ d.record → g < w.generation →
    ∃ u' result, .refreshed u' w.generation result ∈ d.record ∧ w.Shows result

theorem Told.start (date : UtcTime) (vault : Vault) : Told vault.generation (.start date vault) := by
  refine ⟨?_, ?_, ?_⟩
  · simp [Lobby.start]
  · intro _ hg
    exact absurd hg (Nat.lt_irrefl _)
  · simp [Lobby.start]

theorem Locked.not_closing (h : d.Locked) {stage : Visit}
    (hl : stage.holds → (d.visit v).holds ∨ d.holder = none) (hs : stage.holds)
    (hv : ∀ result, d.visit v ≠ .closing result) : ∀ u result, d.visit u ≠ .closing result := by
  intro u result hu
  have hh : (d.visit u).holds := by rw [hu]; rfl
  rcases hl hs with hv' | hfree
  · cases h.only hh hv'
    exact hv result hu
  · rw [(h u).mp hh] at hfree
    cases hfree

theorem Told.act {g : Nat} (h : Told g d) (hk : d.Locked) {stage : Visit} {marks : List VisitMark}
    (hact : Act buffer d.date d.vault v (d.visit v) stage marks vault)
    (hl : stage.holds → (d.visit v).holds ∨ d.holder = none) :
    Told g (d.after v stage marks vault) := by
  have hentered : (∀ u w, .entered u w ∈ marks → g < w.generation →
      ∃ u' result, .refreshed u' w.generation result ∈ d.record ∧ w.Shows result) →
      ∀ u w, .entered u w ∈ marks ++ d.record → g < w.generation →
        ∃ u' result, .refreshed u' w.generation result ∈ marks ++ d.record ∧ w.Shows result := by
    intro hnew u w hu hg
    rcases List.mem_append.mp hu with hu | hu
    · obtain ⟨u', result, hr, hs⟩ := hnew u w hu hg
      exact ⟨u', result, List.mem_append_right _ hr, hs⟩
    · obtain ⟨u', result, hr, hs⟩ := h.entered u w hu hg
      exact ⟨u', result, List.mem_append_right _ hr, hs⟩
  rcases hact.storing with ⟨result, ha, rfl, rfl, rfl⟩ | ⟨result, ha, rfl, rfl, rfl⟩ |
    ⟨rfl, hna, hnb, hm⟩
  · refine ⟨?_, ?_, hentered (by simp)⟩
    · intro u result' hu
      rw [visit_after] at hu
      by_cases huv : u = v
      · rw [if_pos huv] at hu
        cases hu
        exact d.vault.shows_keep result
      · rw [if_neg huv] at hu
        exact absurd (hk.only (by rw [hu]; rfl) (by rw [ha]; rfl)) huv
    · intro hno
      exact absurd (by simp [visit_after]) (hno v result)
  · refine ⟨?_, ?_, hentered (by simp)⟩
    · intro u result' hu
      rw [visit_after] at hu
      by_cases huv : u = v
      · rw [if_pos huv] at hu
        cases hu
      · rw [if_neg huv] at hu
        exact absurd (hk.only (by rw [hu]; rfl) (by rw [ha]; rfl)) huv
    · intro _ _
      exact ⟨v, result, by simp [after, Vault.count], (h.closing v result ha).of_eq rfl rfl⟩
  · refine ⟨?_, ?_, hentered ?_⟩
    · intro u result hu
      rw [visit_after] at hu
      by_cases huv : u = v
      · rw [if_pos huv] at hu
        exact absurd hu (hnb result)
      · rw [if_neg huv] at hu
        exact h.closing u result hu
    · intro hno hg
      obtain ⟨u, result, hu, hs⟩ := h.shown (fun u result hu => by
        refine hno u result ?_
        rw [visit_after, if_neg, hu]
        rintro rfl
        exact hna result hu) hg
      exact ⟨u, result, List.mem_append_right _ hu, hs⟩
    · intro u w hu hg
      obtain ⟨-, rfl⟩ := (hact.looking _ hu).2.2.1 u w rfl
      have hb : stage.holds := (hm _ hu).2.2 u _ rfl
      exact h.shown (hk.not_closing hl hb hna) hg

theorem Told.step {g : Nat} (h : Told g d) (hk : d.Locked) (hs : Step buffer d d') : Told g d' := by
  cases hs with
  | act hact hl => exact h.act hk hact hl
  | date date => exact ⟨h.closing, h.shown, h.entered⟩
  | invalidate token =>
    have hstays : d.vault.Stays (d.rejecting token).vault := d.vault.stays_invalidate token
    refine ⟨fun u result hu => (h.closing u result hu).stays hstays, ?_, ?_⟩
    · intro hno hg
      rw [hstays.generation] at hg
      obtain ⟨u, result, hu, hshows⟩ := h.shown hno hg
      refine ⟨u, result, ?_, hshows.stays hstays⟩
      rw [hstays.generation]
      exact List.mem_cons_of_mem _ hu
    · intro u w hu hg
      obtain ⟨u', result, hu', hshows⟩ := h.entered u w (by simpa using hu) hg
      exact ⟨u', result, List.mem_cons_of_mem _ hu', hshows⟩

theorem Reaches.counts {date : UtcTime} (h : Reaches buffer (.start date vault) d) :
    d.Locked ∧ Numbered vault.generation d ∧ Told vault.generation d := by
  induction h with
  | refl => exact ⟨.start date vault, .start date vault, .start date vault⟩
  | tail _ hs ih => exact ⟨ih.1.step hs, ih.2.1.step hs, ih.2.2.step ih.1 hs⟩

/-- As long as the count stays, all who look see the same credential. -/
structure Sighted (d : Lobby) : Prop where
  checked : (∀ u result, d.visit u ≠ .closing result) →
    ∀ u date w, .checked u date w ∈ d.record → w.generation = d.vault.generation → w.Ages d.vault
  entered : ∀ u o w, .counted u o ∈ d.record → .entered u w ∈ d.record → o ≤ w.generation
  woke : ∀ u date w date' w', .checked u date w ∈ d.record → .woke u date' w' ∈ d.record →
    w'.generation = w.generation → w.Ages w'

theorem Sighted.start (date : UtcTime) (vault : Vault) : (Lobby.start date vault).Sighted := by
  constructor <;> simp [Lobby.start]

theorem Sighted.act {g : Nat} (h : Sighted d) (hk : d.Locked) (hn : Numbered g d)
    (hplaced : d.Placed buffer) {stage : Visit}
    (hact : Act buffer d.date d.vault v (d.visit v) stage marks vault) :
    Sighted (d.after v stage marks vault) := by
  have hlook := hact.looking
  have hown := hact.own
  have hstand := hplaced v
  refine ⟨fun hno u date w hc hg => ?_, fun u o w hc he => ?_, fun u date w date' w' hc hw hg => ?_⟩
  · rcases hact.storing with ⟨result, -, rfl, rfl, rfl⟩ | ⟨result, -, -, rfl, rfl⟩ | ⟨rfl, hna, -, -⟩
    · exact absurd (by simp [visit_after]) (hno v result)
    · have hold : .checked u date w ∈ d.record := by simpa [after] using hc
      have hg : w.generation = d.vault.generation + 1 := hg
      have := (hn.seen _ hold _ rfl).2
      omega
    · rcases List.mem_append.mp hc with hc | hc
      · obtain ⟨-, rfl⟩ := (hlook _ hc).1 u date w rfl
        exact .refl _
      · refine h.checked (fun u' result hu' => hno u' result ?_) u date w hc hg
        rw [visit_after, if_neg, hu']
        rintro rfl
        exact hna result hu'
  · rcases List.mem_append.mp hc with hc | hc
    · have ha : d.visit v = .missed := (hlook _ hc).2.1 u o rfl
      have huv : u = v := Option.some.inj (hown _ hc)
      rcases List.mem_append.mp he with he | he
      · obtain ⟨⟨o', ho'⟩, -⟩ := (hlook _ he).2.2.1 u w rfl
        rw [ha] at ho'
        cases ho'
      · rw [ha] at hstand
        obtain ⟨date, w', -, hpast⟩ := hstand
        have hmem : .entered u w ∈ d.marksOf v := mem_marksOf.mpr ⟨he, congrArg some huv⟩
        simp [hpast] at hmem
    · rcases List.mem_append.mp he with he | he
      · rw [((hlook _ he).2.2.1 u w rfl).2]
        exact (hn.seen _ hc _ rfl).2
      · exact h.entered u o w hc he
  · rcases List.mem_append.mp hc with hc | hc
    · -- an arriving visit has not looked before, least of all with the lock
      obtain ⟨ha, -⟩ := (hlook _ hc).1 u date w rfl
      have huv : u = v := Option.some.inj (hown _ hc)
      rcases List.mem_append.mp hw with hw | hw
      · have hh := ((hlook _ hw).2.2.2 u date' w' rfl).1
        rw [ha] at hh
        cases hh
      · have hpast : d.marksOf v = [] := by simpa [ha, Standing] using hstand
        have hmem : .woke u date' w' ∈ d.marksOf v := mem_marksOf.mpr ⟨hw, congrArg some huv⟩
        simp [hpast] at hmem
    · rcases List.mem_append.mp hw with hw | hw
      · obtain ⟨hh, hno, rfl⟩ := (hlook _ hw).2.2.2 u date' w' rfl
        refine h.checked (fun u' result hu' => ?_) u date w hc hg.symm
        cases hk.only (by rw [hu']; rfl) hh
        exact hno result hu'
      · exact h.woke u date w date' w' hc hw hg

theorem Sighted.step {g : Nat} (h : Sighted d) (hk : d.Locked) (hn : Numbered g d)
    (hplaced : d.Placed buffer) (hs : Step buffer d d') : Sighted d' := by
  cases hs with
  | act hact hl => exact h.act hk hn hplaced hact
  | date date => exact ⟨h.checked, h.entered, h.woke⟩
  | invalidate token =>
    have hstays := d.vault.stays_invalidate token
    refine ⟨fun hno u date w hc hg => ?_, fun u o w hc he => ?_, fun u date w date' w' hc hw => ?_⟩
    · exact (h.checked hno u date w (by simpa using hc) (hg.trans hstays.generation)).trans hstays.ages
    · exact h.entered u o w (by simpa using hc) (by simpa using he)
    · exact h.woke u date w date' w' (by simpa using hc) (by simpa using hw)

theorem Reaches.sighted {date : UtcTime} (h : Reaches buffer (.start date vault) d) : Sighted d := by
  induction h with
  | refl => exact .start date vault
  | tail hr hs ih =>
    obtain ⟨hk, hn, -⟩ := Reaches.counts hr
    exact ih.step hk hn (Placed.reaches hr) hs

/-- A caller that learns of the refresh that came to `result` asks for no token, and is answered with the
stored credential or with the failure of that refresh. -/
def Heeds (buffer : Span) (d : Lobby) (v : Nat) (result : Except Failure Credential) : Prop :=
  (∀ answer, .exchanged v answer ∉ d.record) ∧
    ∀ own, d.visit v = .served own →
      (∃ c date w, own = .ok c ∧ .woke v date w ∈ d.record ∧ w.usable? date buffer = some c) ∨
        ∃ f, own = .error f ∧ result = .error f

/-- The refresh succeeded, but a caller with the lock finds its credential rejected, or about to expire. -/
def Outlived (buffer : Span) (d : Lobby) (v : Nat) (result : Except Failure Credential) : Prop :=
  ∃ c date w, result = .ok c ∧ .woke v date w ∈ d.record ∧ w.credential = some c ∧
    (w.rejected = true ∨ c.needsRefresh date buffer = true)

theorem Reaches.heeds_or_outlived {date : UtcTime} (h : Reaches buffer (.start date vault) d)
    {o : Nat} {w : Vault} (hc : .counted v o ∈ d.record) (he : .entered v w ∈ d.record)
    (ho : o < w.generation) :
    ∃ u result, .refreshed u w.generation result ∈ d.record ∧
      (d.Heeds buffer v result ∨ d.Outlived buffer v result) := by
  obtain ⟨-, hn, ht⟩ := h.counts
  have hstand := Placed.reaches h v
  obtain ⟨u, result, hu, hshows⟩ :=
    ht.entered v w he (Nat.lt_of_le_of_lt (hn.seen _ hc _ rfl).1 ho)
  refine ⟨u, result, hu, ?_⟩
  rcases hstand.shares_or_outlives (mem_marksOf.mpr ⟨hc, rfl⟩) (mem_marksOf.mpr ⟨he, rfl⟩)
    (Nat.ne_of_gt ho) with ⟨hex, hserved⟩ | ⟨hf, date', w', hw, hcred, huse⟩
  · refine .inl ⟨fun answer hm => hex answer (mem_marksOf.mpr ⟨hm, rfl⟩), fun own hown => ?_⟩
    rcases hserved own hown with ⟨c, date', w', rfl, hw, huse⟩ | ⟨f, rfl, hf⟩
    · exact .inl ⟨c, date', w', rfl, (mem_marksOf.mp hw).1, huse⟩
    · cases result with
      | ok c =>
        rw [hshows.2] at hf
        cases hf
      | error f' =>
        cases hf.symm.trans hshows
        exact .inr ⟨f, rfl, rfl⟩
  · cases result with
    | error f =>
      rw [hshows] at hf
      cases hf
    | ok c =>
      have hcred : w'.credential = some c := hcred.trans hshows.1
      exact .inr ⟨c, date', w', rfl, (mem_marksOf.mp hw).1, hcred, Vault.usable?_eq_none.mp huse c hcred⟩

/-- The refresh with a number fails, or its credential is good for all who get the lock after it. -/
def Suffices (buffer : Span) (d : Lobby) (n : Nat) : Prop :=
  ∀ u c, .refreshed u n (.ok c) ∈ d.record →
    ∀ v w date w', .entered v w ∈ d.record → w.generation = n → .woke v date w' ∈ d.record →
      w'.rejected = false ∧ c.needsRefresh date buffer = false

/-- The clock does not go back while a caller waits. -/
def Advances (d : Lobby) (v : Nat) : Prop :=
  ∀ date w date' w', .checked v date w ∈ d.record → .woke v date' w' ∈ d.record → date ≤ date'

theorem Reaches.number_of_refresh {date : UtcTime} (h : Reaches buffer (.start date vault) d)
    {u n : Nat} {result : Except Failure Credential} (hr : .refreshed u n result ∈ d.record) :
    ∃ o w answer, .counted u o ∈ d.record ∧ .entered u w ∈ d.record ∧
      .exchanged u answer ∈ d.record ∧ n = w.generation + 1 := by
  obtain ⟨o, w, answer, hnum, hc, he, ha⟩ :=
    (Placed.reaches h u).refreshed (mem_marksOf.mpr ⟨hr, rfl⟩)
  exact ⟨o, w, answer, (mem_marksOf.mp hc).1, (mem_marksOf.mp he).1, (mem_marksOf.mp ha).1, hnum⟩

theorem Reaches.not_suffices {date : UtcTime} (h : Reaches buffer (.start date vault) d) {u o : Nat}
    {w : Vault} {answer : Except Failure TokenGrant} (hc : .counted u o ∈ d.record)
    (he : .entered u w ∈ d.record) (ha : .exchanged u answer ∈ d.record) (ho : o < w.generation) :
    ¬ d.Suffices buffer w.generation := by
  intro hs
  obtain ⟨u', result, hr, hheeds | ⟨c, date', w', rfl, hw, -, hout⟩⟩ := h.heeds_or_outlived hc he ho
  · exact hheeds.1 answer ha
  · obtain ⟨hrej, hneeds⟩ := hs u' c hr u w date' w' he rfl hw
    rcases hout with hout | hout
    · rw [hrej] at hout
      cases hout
    · rw [hneeds] at hout
      cases hout

/-- A caller that returns although it found nothing usable has seen a refresh counted, or made one. -/
theorem Reaches.refreshed_of_served {date date₀ : UtcTime} {w₀ : Vault}
    (h : Reaches buffer (.start date vault) d) {own : Except Failure Credential}
    (hch : .checked v date₀ w₀ ∈ d.record) (hc : .counted v w₀.generation ∈ d.record)
    (hs : d.visit v = .served own) (ha : d.Advances v) :
    ∃ u result, .refreshed u (w₀.generation + 1) result ∈ d.record := by
  obtain ⟨-, hn, -⟩ := h.counts
  have hsight := h.sighted
  have hstand := Placed.reaches h v
  rw [hs] at hstand
  obtain ⟨hg, hle⟩ := hn.seen _ hch _ rfl
  by_contra hnone
  have hcount : d.vault.generation = w₀.generation := by
    by_contra hne
    exact hnone (hn.each _ (Nat.lt_succ_of_le hg) (by omega))
  obtain ⟨w, he, hcase⟩ :=
    Served.waited hstand (mem_marksOf.mpr ⟨hch, rfl⟩) (mem_marksOf.mpr ⟨hc, rfl⟩)
  have he := (mem_marksOf.mp he).1
  have hlow := hsight.entered v _ w hc he
  have hhigh := (hn.seen _ he _ rfl).2
  rcases hcase with ⟨c, date', w', hw, hs, hu, hmiss⟩ | hne | hr
  · have hw := (mem_marksOf.mp hw).1
    have hage := hsight.woke v date₀ w₀ date' w' hch hw (hs.generation.trans (by omega))
    obtain ⟨hcred, hrej, hfresh⟩ := Vault.usable?_eq_some.mp hu
    rcases Vault.usable?_eq_none.mp hmiss c (hage.credential.symm.trans hcred) with hr | hn
    · rw [hage.rejected hr] at hrej
      cases hrej
    · rw [c.needsRefresh_mono (ha date₀ w₀ date' w' hch hw) hn] at hfresh
      cases hfresh
  · exact hne (by omega)
  · have := (hn.numbers v _ own (mem_marksOf.mp hr).1).2
    omega

/-- With the lock, nobody else is needed to learn of a refresh. -/
theorem Reaches.served_of_inside {o : Nat} (hv : d.visit v = .inside o) (ho : o ≠ d.vault.generation)
    (hknown : d.vault.usable? d.date buffer ≠ none ∨ d.vault.lastFailure ≠ none) :
    ∃ own d', Reaches buffer d d' ∧ d'.visit v = .served own := by
  have hlag : Spree buffer d.date v (d.visit v) d.vault .behind [] d.vault := by
    rw [hv]
    exact .single (.lag ho.symm)
  have hlock : (d.visit v).holds ∨ d.holder = none := .inl (by rw [hv]; rfl)
  cases hu : d.vault.usable? d.date buffer with
  | some c =>
    exact ⟨_, _, (hlag.tail (.share (.inl rfl) hu)).reaches hlock, by rw [visit_after, if_pos rfl]⟩
  | none =>
    obtain ⟨f, hf⟩ := Option.ne_none_iff_exists'.mp (hknown.resolve_left fun hne => hne hu)
    exact ⟨_, _, ((hlag.tail (.lack hu)).tail (.shareFailure hf)).reaches hlock,
      by rw [visit_after, if_pos rfl]⟩

/-- One refresh for all who wait for it. -/
structure SingleFlight (buffer : Span) (g : Nat) (d : Lobby) : Prop where
  unique : ∀ u u' n result result', .refreshed u n result ∈ d.record →
    .refreshed u' n result' ∈ d.record → u = u' ∧ result = result'
  /-- The count was read before a refresh ended, and the lock was got after it. -/
  learned : ∀ v o w, .counted v o ∈ d.record → .entered v w ∈ d.record → o < w.generation →
    ∃ u result, .refreshed u w.generation result ∈ d.record ∧
      (d.Heeds buffer v result ∨ d.Outlived buffer v result)
  answered : ∀ v o, d.visit v = .inside o → o < d.vault.generation →
    d.vault.usable? d.date buffer ≠ none ∨ d.vault.lastFailure ≠ none →
      ∃ own d', Reaches buffer d d' ∧ d'.visit v = .served own
  /-- Those who read the same count make at most the next refresh. -/
  next : ∀ o, (∀ n, o < n → d.Suffices buffer n) → ∀ u n result, .counted u o ∈ d.record →
    .refreshed u n result ∈ d.record → n = o + 1
  made : ∀ v date w own, .checked v date w ∈ d.record → .counted v w.generation ∈ d.record →
    d.visit v = .served own → d.Advances v →
      ∃ u result, .refreshed u (w.generation + 1) result ∈ d.record
  asked : ∀ u answer own, .exchanged u answer ∈ d.record → d.visit u = .served own →
    ∃ n, .refreshed u n own ∈ d.record
  /-- Nobody reads the count after the first refresh. -/
  total : (∀ v o, .counted v o ∈ d.record → o = g) → d.Suffices buffer (g + 1) →
    d.refreshes ≤ 1 ∧ ∀ v o own, .counted v o ∈ d.record → d.visit v = .served own →
      d.Advances v → d.refreshes = 1

theorem Reaches.singleFlight {date : UtcTime} (h : Reaches buffer (.start date vault) d) :
    d.SingleFlight buffer vault.generation := by
  obtain ⟨hk, hn, -⟩ := h.counts
  have hmade : ∀ v date w own, .checked v date w ∈ d.record → .counted v w.generation ∈ d.record →
      d.visit v = .served own → d.Advances v →
        ∃ u result, .refreshed u (w.generation + 1) result ∈ d.record :=
    fun v date w own hch hc hs ha => h.refreshed_of_served hch hc hs ha
  refine ⟨hn.unique, fun v o w hc he ho => h.heeds_or_outlived hc he ho, ?_, ?_, hmade, ?_, ?_⟩
  · exact fun v o hv ho hknown => Reaches.served_of_inside hv (Nat.ne_of_lt ho) hknown
  · intro o hs u n result hc hr
    obtain ⟨-, w, answer, -, he, ha, rfl⟩ := h.number_of_refresh hr
    have hle := h.sighted.entered u o w hc he
    by_contra hne
    have ho : o < w.generation := by omega
    exact h.not_suffices hc he ha ho (hs _ ho)
  · intro u answer own ha hs
    have hstand := Placed.reaches h u
    rw [hs] at hstand
    obtain ⟨n, hr⟩ := Served.exchanged hstand (mem_marksOf.mpr ⟨ha, rfl⟩)
    exact ⟨n, (mem_marksOf.mp hr).1⟩
  · intro hall hs
    have htotal := hn.total
    have hle : d.refreshes ≤ 1 := by
      by_contra hmore
      obtain ⟨u, result, hr⟩ := hn.each (vault.generation + 2) (by omega) (by omega)
      obtain ⟨o, w, answer, hc, he, ha, hnum⟩ := h.number_of_refresh hr
      have ho := hall u o hc
      have hw : w.generation = vault.generation + 1 := by omega
      exact h.not_suffices hc he ha (by omega) (hw ▸ hs)
    refine ⟨hle, fun v o own hc hserved hadv => ?_⟩
    have ho := hall v o hc
    have hstand := Placed.reaches h v
    rw [hserved] at hstand
    obtain ⟨date', w, hch⟩ := Served.checked hstand (mem_marksOf.mpr ⟨hc, rfl⟩)
    have hch := (mem_marksOf.mp hch).1
    have hw := hn.seen _ hch _ rfl
    by_contra hne
    have hsame : o = w.generation := by omega
    obtain ⟨u, result, hr⟩ := hmade v date' w own hch (hsame ▸ hc) hserved hadv
    have := (hn.numbers u _ result hr).2
    omega

end Lobby

def Event.refresh? : Event → Option (Except Failure Credential)
  | .refreshed _ result => some result
  | _ => none

/-- What the refreshes came to, the last one first. -/
def Journal.refreshes (journal : List Entry) : List (Except Failure Credential) :=
  journal.filterMap (·.event.refresh?)

namespace Traffic

variable {σ : Type} {p : Peer σ} {c : Setup} {g : Nat} {w w' : World σ} {t t' : Task}

/-- The count of refreshes goes on from `g`, and the vault shows what the last of them came to. -/
structure Tallied (g : Nat) (w : World σ) : Prop where
  total : w.vault.generation = g + (Journal.refreshes w.journal).length
  shown : ∀ result, (Journal.refreshes w.journal).head? = some result → w.vault.Shows result

theorem Tallied.of_stays (h : Tallied g w) (hv : w.vault.Stays w'.vault)
    (hj : Journal.refreshes w'.journal = Journal.refreshes w.journal) : Tallied g w' :=
  ⟨by rw [hv.generation, hj, h.total], fun result hr => (h.shown result (hj ▸ hr)).stays hv⟩

theorem Tallied.refreshed (h : Tallied g w) {result : Except Failure Credential}
    (hv : w'.vault = w.vault.refreshed result)
    (hj : Journal.refreshes w'.journal = result :: Journal.refreshes w.journal) : Tallied g w' := by
  rw [Vault.refreshed_eq] at hv
  refine ⟨?_, fun result' hr => ?_⟩
  · have htotal := h.total
    have hcount : w'.vault.generation = (w.vault.keep result).generation + 1 := by rw [hv]; rfl
    rw [hcount, Vault.generation_keep, hj, List.length_cons, htotal, Nat.add_assoc]
  · rw [hj] at hr
    cases hr
    rw [hv]
    exact (w.vault.shows_keep result).of_eq rfl rfl

theorem Tallied.move (h : Tallied g w) (hm : t.Move p c w w' t') : Tallied g w' := by
  cases hm with
  | issued | refreshFailed => exact h.refreshed rfl rfl
  | reject => exact h.of_stays (w.vault.stays_invalidate _) rfl
  | _ => exact h.of_stays (.refl _) rfl

/-- Who waits for the lock has read the count. -/
def Counted (g : Nat) (t : Task) : Prop := ∀ o, t.stage = .queued o → g ≤ o

theorem Counted.of_outside (h : t.stage.isInside = false) : Counted g t := by
  intro o ho
  rw [ho] at h
  cases h

theorem Counted.move (h : Tallied g w) (hm : t.Move p c w w' t') : Counted g t' := by
  cases hm with
  | lined =>
    rintro o ⟨⟩
    exact h.total ▸ Nat.le_add_right ..
  | found | shared | sharedFailure | issued | refreshFailed =>
    exact .of_outside (t.obtained_isInside _)
  | granted => exact .of_outside t.admitted_isInside
  | slow | retry => exact .of_outside (Task.pause_isInside _ _)
  | refresh | exchange | rest | fallBack =>
    rintro o ⟨⟩
  | _ => exact .of_outside rfl

theorem tallied_kept (g : Nat) : Kept p c (Tallied g) (fun _ => Counted g) where
  begin w goal deadline h := by
    refine ⟨h.of_stays (.refl _) rfl, .of_outside ?_, fun _ hu => hu⟩
    cases goal <;> rfl
  move w t w' t' h _ hm := ⟨h.move hm, .move h hm, fun _ _ hu => hu⟩
  expire w t h _ _ _ := ⟨h.of_stays (.refl _) rfl, .of_outside rfl, fun _ _ hu => hu⟩
  drop w t h _ := ⟨h.of_stays (.refl _) rfl, fun _ _ hu => hu⟩
  elapse w time h _ := ⟨h.of_stays (.refl _) rfl, fun _ hu => hu⟩
  date w date h := ⟨h.of_stays (.refl _) rfl, fun _ hu => hu⟩
  limit w a mark l h _ := ⟨h.of_stays (.refl _) rfl, fun _ hu => hu⟩
  invalidate w token h := ⟨h.of_stays (w.vault.stays_invalidate token) rfl, fun _ hu => hu⟩

/-- The next step of a task that read the count before the last refresh ended, and then got the lock. It
is given the stored credential or the failure of that refresh, or else finds that the credential of that
refresh was rejected or is about to expire. -/
def Heeds (p : Peer σ) (c : Setup) (s : Traffic σ) : Prop :=
  ∀ t ∈ s.tasks, ∀ o, t.stage = .queued o → s.world.turnstile.holder = some t.id →
    o < s.world.vault.generation → ∃ result w' t',
      (Journal.refreshes s.world.journal).head? = some result ∧
      t.step p c s.world = .ok (some (w', t')) ∧ w'.exchanges = s.world.exchanges ∧
      ((∃ credential, s.world.usable? c = some credential ∧ t'.stage = t.obtained (.ok credential)) ∨
        (∃ f, result = .error f ∧ t'.stage = t.obtained (.error f)) ∨
        ∃ credential, result = .ok credential ∧ s.world.vault.credential = some credential ∧
          (s.world.vault.rejected ∨ credential.needsRefresh s.world.date c.buffer))

theorem heeds_of_shown {s : Traffic σ} (ht : Tallied g s.world) (hc : ∀ t ∈ s.tasks, Counted g t) :
    s.Heeds p c := by
  intro t hmem o ho hh hlt
  have hstart := hc t hmem o ho
  have htotal := ht.total
  have hstep : t.step p c s.world = t.enter c s.world o := by rw [Task.step, ho]
  rw [hstep, Task.enter, if_neg (not_not.mpr hh)]
  obtain ⟨result, hlast⟩ : ∃ result, (Journal.refreshes s.world.journal).head? = some result := by
    cases hr : Journal.refreshes s.world.journal with
    | nil =>
      rw [hr, List.length_nil] at htotal
      omega
    | cons result rest => exact ⟨result, rfl⟩
  have hshown := ht.shown result hlast
  cases hu : s.world.usable? c with
  | some credential =>
    exact ⟨result, _, _, hlast, Task.obtain_eq .., rfl, .inl ⟨credential, rfl, rfl⟩⟩
  | none =>
    simp only [if_neg (Nat.ne_of_gt hlt)]
    cases result with
    | error f =>
      have hf : s.world.vault.lastFailure = some f := hshown
      rw [hf]
      exact ⟨.error f, _, _, hlast, Task.obtain_eq .., rfl, .inr (.inl ⟨f, rfl, rfl⟩)⟩
    | ok credential =>
      obtain ⟨hcred, hf⟩ := hshown
      rw [hf]
      exact ⟨.ok credential, _, _, hlast, rfl, rfl,
        .inr (.inr ⟨credential, rfl, hcred, Vault.usable?_eq_none.mp hu credential hcred⟩)⟩

/-- Whatever tasks do is what callers could have done who go their way one access at a time, and all
wait for one refresh. -/
theorem single_flight {s : Traffic σ} (hl : w.turnstile = .free) (hj : w.journal = [])
    (h : Reaches p c ⟨w, []⟩ s) :
    s.Heeds p c ∧ (∃ d, Lobby.Reaches c.buffer (.start w.date w.vault) d ∧ d.Mirrors s ∧
        d.refreshes = (Journal.refreshes s.world.journal).length) ∧
      ∀ d, Lobby.Reaches c.buffer (.start w.date w.vault) d →
        d.SingleFlight c.buffer w.vault.generation := by
  have hstart : Tallied w.vault.generation w := by
    refine ⟨?_, ?_⟩
    · rw [hj]
      rfl
    · rw [hj]
      intro result hr
      cases hr
  obtain ⟨htally, hcounted⟩ := (tallied_kept w.vault.generation).reaches h hstart (by simp)
  obtain ⟨d, hd, m⟩ := (Lobby.Mirrors.start hj).reached (.start hl) h
  have hsame : d.refreshes = (Journal.refreshes s.world.journal).length := by
    have hcount := (Lobby.Reaches.counts hd).2.1.total
    have htotal := htally.total
    rw [← m.vault, hcount] at htotal
    exact Nat.add_left_cancel htotal
  exact ⟨heeds_of_shown htally hcounted, ⟨d, hd, m, hsame⟩,
    fun _ hd => Lobby.Reaches.singleFlight hd⟩

end Traffic

def TokenGrant.fresh : TokenGrant := ⟨"token", 3600, none, none, none⟩

def Credential.fresh : Credential := ⟨"token", "Bearer", .ofNanos (3600 * UtcTime.second), none⟩

theorem Credential.issued_fresh : issued .fresh (.ofNanos 0) = .ok fresh := by decide +kernel

/-- A token endpoint that takes its time. -/
def Peer.slow : Peer Unit where
  send _ _ := (⟨.zero, .error (.internal "no service")⟩, ())
  exchange _ _ := (⟨.ofMillis 1, .ok .fresh⟩, ())
  draw _ := (0, ())

def Vault.fresh : Vault := ⟨some .fresh, false, none, 1⟩

theorem Vault.fresh_usable : fresh.usable? (.ofNanos 0) .zero = some .fresh := by decide +kernel

/-- Two callers read the count before the first of them refreshes the credential. -/
theorem Lobby.two_callers : ∃ d, Reaches .zero (.start (.ofNanos 0) .empty) d ∧
    d.date = .ofNanos 0 ∧ d.vault = .fresh ∧ d.visit 1 = .served (.ok .fresh) ∧
    d.visit 2 = .arriving ∧
    d.record = [.served 1 (.ok .fresh), .woke 1 (.ofNanos 0) .fresh, .entered 1 .fresh,
      .served 0 (.ok .fresh), .refreshed 0 1 (.ok .fresh), .kept 0 (.ok .fresh),
      .exchanged 0 (.ok .fresh), .woke 0 (.ofNanos 0) .empty, .entered 0 .empty,
      .counted 1 0, .checked 1 (.ofNanos 0) .empty, .counted 0 0, .checked 0 (.ofNanos 0) .empty] := by
  have hmiss : Vault.empty.usable? (.ofNanos 0) .zero = none := rfl
  have hfirst : Reaches .zero (.start (.ofNanos 0) .empty) _ :=
    Spree.reaches (v := 0) ((Spree.single (.miss hmiss)).tail .count) (.inr rfl)
  have hsecond := hfirst.trans
    (Spree.reaches (v := 1) ((Spree.single (.miss hmiss)).tail .count) (.inr rfl))
  have hrefresh := hsecond.trans (Spree.reaches (v := 0)
    (((((((Spree.single .take).tail (.lead rfl)).tail (.refresh hmiss)).tail
      (.exchange (.ok .fresh))).tail (.issue Credential.issued_fresh)).tail .keep).tail .close)
    (.inr rfl))
  have hshare := hrefresh.trans
    (Spree.reaches (v := 1) (Spree.share Vault.fresh_usable) (.inr rfl))
  exact ⟨_, hshare, rfl, rfl, rfl, rfl, rfl⟩

/-- Two tasks want a credential, and the first of them refreshes it. -/
theorem Traffic.two_tasks : ∃ s : Traffic Unit,
    Reaches .slow (.plain 0) ⟨.start (.ofNanos 0) (.ofQuota .standard) none (), []⟩ s ∧
    Journal.custody s.world.journal = [.obtained 1 (.ok .fresh), .obtained 0 (.ok .fresh),
      .refreshed 0 (.ok .fresh), .issued 0 (.ok .fresh)] ∧ s.world.vault = .fresh := by
  have hrun : ∃ s, (Schedule.ofOrders (.start (.ofNanos 0) (.ofQuota .standard) none ()) 2
      [⟨.credential, none⟩, ⟨.credential, none⟩]).run .slow (.plain 0) 20 = .ok s ∧
      Journal.custody s.world.journal = [.obtained 1 (.ok .fresh), .obtained 0 (.ok .fresh),
        .refreshed 0 (.ok .fresh), .issued 0 (.ok .fresh)] ∧ s.world.vault = .fresh :=
    ⟨_, rfl, rfl, rfl⟩
  obtain ⟨s, hs, hj, hvault⟩ := hrun
  exact ⟨⟨s.world, s.tasks⟩, ofOrders_reaches hs, hj, hvault⟩

theorem Traffic.single_flight_shared : ∃ (s : Traffic Unit) (d : Lobby),
    Reaches .slow (.plain 0) ⟨.start (.ofNanos 0) (.ofQuota .standard) none (), []⟩ s ∧
    Journal.custody s.world.journal = [.obtained 1 (.ok .fresh), .obtained 0 (.ok .fresh),
      .refreshed 0 (.ok .fresh), .issued 0 (.ok .fresh)] ∧
    Lobby.Reaches .zero (.start (.ofNanos 0) .empty) d ∧
    .counted 1 0 ∈ d.record ∧ .entered 1 .fresh ∈ d.record ∧ d.refreshes = 1 ∧
    d.Heeds .zero 1 (.ok .fresh) := by
  obtain ⟨s, hreach, hj, -⟩ := two_tasks
  obtain ⟨d, hd, -, -, hvisit, -, hrecord⟩ := Lobby.two_callers
  have hflight : d.SingleFlight .zero 0 := (single_flight rfl rfl hreach).2.2 d hd
  have hcounted : .counted 1 0 ∈ d.record := by rw [hrecord]; simp
  have hentered : .entered 1 .fresh ∈ d.record := by rw [hrecord]; simp
  have hall : ∀ v o, .counted v o ∈ d.record → o = 0 := by
    intro v o hc
    have hc : v = 1 ∧ o = 0 ∨ v = 0 ∧ o = 0 := by simpa [hrecord] using hc
    rcases hc with hc | hc <;> exact hc.2
  have hrefreshed : ∀ u result, .refreshed u 1 result ∈ d.record → result = .ok .fresh := by
    intro u result hr
    have hr : u = 0 ∧ result = .ok .fresh := by simpa [hrecord] using hr
    exact hr.2
  have hsuffices : d.Suffices .zero 1 := by
    intro u c hr v w date w' he hg hw
    cases hrefreshed u _ hr
    have he : v = 1 ∧ w = .fresh ∨ v = 0 ∧ w = .empty := by simpa [hrecord] using he
    rcases he with ⟨rfl, rfl⟩ | ⟨rfl, rfl⟩
    · have hw : date = .ofNanos 0 ∧ w' = .fresh := by simpa [hrecord] using hw
      rw [hw.1, hw.2]
      exact (Vault.usable?_eq_some.mp Vault.fresh_usable).2
    · cases hg
  have hadvances : d.Advances 1 := by
    intro date w date' w' hc hw
    have hc : date = .ofNanos 0 ∧ w = .empty := by simpa [hrecord] using hc
    have hw : date' = .ofNanos 0 ∧ w' = .fresh := by simpa [hrecord] using hw
    rw [hc.1, hw.1]
    decide
  have hone := (hflight.total hall hsuffices).2 1 0 _ hcounted hvisit hadvances
  refine ⟨s, d, hreach, hj, hd, hcounted, hentered, hone, ?_⟩
  obtain ⟨u, result, hr, hheeds | hout⟩ := hflight.learned 1 0 .fresh hcounted hentered (by decide)
  · exact hrefreshed u result hr ▸ hheeds
  · obtain ⟨c, date, w', rfl, hw, -, hbad⟩ := hout
    obtain ⟨hrej, hneeds⟩ := hsuffices u c hr 1 .fresh date w' hentered rfl hw
    simp [hrej, hneeds] at hbad

end CatalogClient
