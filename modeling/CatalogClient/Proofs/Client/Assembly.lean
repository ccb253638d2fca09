import CatalogClient.Client
import CatalogClient.Proofs.Config.Base
/-!
From settings to clients: each part of a client is made from settings that were found valid, but for the
delays between attempts, which ask more of the settings than the check does.
-/

namespace CatalogClient

theorem Span.nanos_ofMillis_pos {n : Nat} : 0 < (Span.ofMillis n).nanos ↔ 0 < n := by
  unfold ofMillis ofNanos
  split
  · exact Nat.mul_pos_iff_of_pos_right (by decide)
  · rename_i hlong
    refine ⟨fun _ => Nat.pos_of_ne_zero ?_, fun _ => by decide⟩
    rintro rfl
    exact hlong (by decide)

theorem Span.nanos_ofSeconds_pos {n : Nat} (h : 0 < n) : 0 < (Span.ofSeconds n).nanos := by
  unfold ofSeconds ofNanos
  split
  · exact Nat.mul_pos h (by decide)
  · decide

theorem Span.ofMillis_le {m n : Nat} (h : m ≤ n) : Span.ofMillis m ≤ Span.ofMillis n := by
  show (Span.ofMillis m).nanos ≤ (Span.ofMillis n).nanos
  have hmul : m * nanosPerMilli ≤ n * nanosPerMilli := Nat.mul_le_mul_right _ h
  unfold ofMillis ofNanos
  split
  · split
    · exact hmul
    · rename_i hshort _
      exact Nat.le_sub_one_of_lt hshort
  · rw [dif_neg (by omega)]

namespace Config

variable {c : Config}

theorem Valid.tokenEndpoint_ok (h : c.Valid) : ∃ u, c.tokenEndpoint = .ok u := by
  cases htoken : c.tokenUrl with
  | some text =>
    obtain ⟨u, hread⟩ := h.token text htoken
    exact ⟨u, by rw [tokenEndpoint, htoken]; simp only [hread]; rfl⟩
  | none =>
    obtain ⟨base, hbase, hcanonical⟩ := h.base_canonical
    obtain ⟨u, hurl, -⟩ := Request.url_of_plainPath (r := .get tokenPath) hcanonical
      (.inl text_tokenPlainPath.symm)
    exact ⟨u, (tokenEndpoint_below hbase htoken).trans hurl⟩

theorem Valid.quota_ok (h : c.Valid) : ∃ q, Quota.make c.rateLimitCalls c.rateLimitPeriod = .ok q := by
  have hperiod : 0 < c.rateLimitPeriod.nanos := Span.nanos_ofSeconds_pos (Nat.pos_of_ne_zero h.limit.2)
  rw [Quota.make, dif_pos (Nat.pos_of_ne_zero h.limit.1), dif_pos hperiod]
  exact ⟨_, rfl⟩

end Config

namespace Client

variable {c : Config}

theorem assemble_of_valid (h : c.Valid) (jitter : Jitter) (quota : Option Quota) :
    (0 < c.backoffBaseMillis → ∃ k, assemble c jitter quota = .ok k ∧ k.config = c) ∧
      (c.backoffBaseMillis = 0 →
        assemble c jitter quota = .error (.config BackoffFault.zeroBase.message)) := by
  constructor
  · intro hpos
    obtain ⟨base, hbase, -⟩ := h.base_canonical
    obtain ⟨u, hendpoint⟩ := h.tokenEndpoint_ok
    have hbackoff : ∃ b, Backoff.make (.ofMillis c.backoffBaseMillis)
        (.ofMillis c.backoffMaxMillis) = .ok b := by
      rw [Backoff.make, dif_pos (Span.nanos_ofMillis_pos.mpr hpos), dif_pos (Span.ofMillis_le h.backoff)]
      exact ⟨_, rfl⟩
    obtain ⟨b, hbackoff⟩ := hbackoff
    obtain ⟨q, hquota⟩ := h.quota_ok
    unfold assemble TokenEndpoint.ofConfig
    rw [hbackoff, hendpoint, hquota, hbase]
    cases quota <;> exact ⟨_, rfl, rfl⟩
  · intro hzero
    have hbackoff : Backoff.make (.ofMillis c.backoffBaseMillis) (.ofMillis c.backoffMaxMillis) =
        .error .zeroBase := by
      rw [Backoff.make, dif_neg fun hpos => ?_]
      have := Span.nanos_ofMillis_pos.mp hpos
      omega
    rw [assemble, hbackoff]
    rfl

/-- Valid settings give a client if and only if their delay between attempts is not zero; this is the one
condition of a part that the check of the settings does not make. -/
theorem built_from_valid (hvalid : c.validate = .ok ()) (jitter : Jitter) (quota : Option Quota) :
    (0 < c.backoffBaseMillis →
      (∃ k, build c jitter quota = .ok k ∧ k.config = c) ∧
        (Delivery.checkUserAgent c.userAgent = .ok () → ∃ k, production c = .ok k ∧ k.config = c)) ∧
    (c.backoffBaseMillis = 0 →
      build c jitter quota = .error (.config BackoffFault.zeroBase.message) ∧
        (Delivery.checkUserAgent c.userAgent = .ok () →
          production c = .error (.config BackoffFault.zeroBase.message))) := by
  have hassemble := assemble_of_valid (Config.valid_of_validate hvalid)
  have hbuild : ∀ jitter quota, build c jitter quota = assemble c jitter quota := by
    intro jitter quota
    simp only [build, hvalid, bind, Except.bind]
  have hproduction : Delivery.checkUserAgent c.userAgent = .ok () → production c = assemble c .equal none := by
    intro hagent
    simp only [production, hvalid, hagent, bind, Except.bind]
  refine ⟨fun hpos => ⟨?_, fun hagent => ?_⟩, fun hzero => ⟨?_, fun hagent => ?_⟩⟩
  · rw [hbuild]
    exact (hassemble jitter quota).1 hpos
  · rw [hproduction hagent]
    exact (hassemble .equal none).1 hpos
  · rw [hbuild]
    exact (hassemble jitter quota).2 hzero
  · rw [hproduction hagent]
    exact (hassemble .equal none).2 hzero

theorem built_from_valid_standard :
    let c := Config.make "https://pim.example.com" "id" "secret"
    c.validate = .ok () ∧ ∃ k, production c = .ok k ∧ k.config = c := by
  have hvalid : (Config.make "https://pim.example.com" "id" "secret").validate = .ok () := by decide +kernel
  exact ⟨hvalid, ((built_from_valid hvalid .equal none).1 (by decide)).2 (by decide)⟩

/-- Settings without a delay are valid, and no client is made from them. -/
theorem zero_delay_refused :
    let c := { Config.make "https://pim.example.com" "id" "secret" with backoffBaseMillis := 0 }
    c.validate = .ok () ∧ Delivery.checkUserAgent c.userAgent = .ok () ∧
      production c = .error (.config BackoffFault.zeroBase.message) := by
  have hvalid : ({ Config.make "https://pim.example.com" "id" "secret" with
      backoffBaseMillis := 0 } : Config).validate = .ok () := by decide +kernel
  refine ⟨hvalid, rfl, ?_⟩
  rw [production, hvalid]
  exact (assemble_of_valid (Config.valid_of_validate hvalid) .equal none).2 rfl

end Client

end CatalogClient
