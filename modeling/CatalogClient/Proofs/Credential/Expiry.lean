import CatalogClient.Credential
import CatalogClient.Proofs.Time.Steps
import Mathlib.Data.Int.Order.Basic
/-!
When credentials expire, and when they are due for a refresh. A token becomes a credential exactly if the calendar
has the time of its expiry; a credential is due exactly by the comparison of whole numbers of nanoseconds, however
long the buffer is.
-/

namespace CatalogClient

open UtcTime (ofNanos second)

/-- How many nanoseconds a token lives. -/
def TokenGrant.lifetime (t : TokenGrant) : Int := max t.expiresIn 0 * second

/-- When a token expires that is issued at a date, whether the calendar has that time or not. -/
def TokenGrant.expiry (t : TokenGrant) (date : UtcTime) : UtcTime := date.plusSeconds t.expiresIn.toNat

namespace Credential

variable {token : TokenGrant} {date now : UtcTime} {c : Credential}

section Issue

theorem issued_eq (hd : UtcTime.earliest ≤ date.nanos) : issued token date =
    if (token.expiry date).InCalendar then
      .ok ⟨token.accessToken, token.tokenType.getD "Bearer", token.expiry date, token.refreshToken⟩
    else .error .expiry := by
  simp only [issued, ← Int.toNat_eq_max, UtcTime.addSeconds?_eq hd, TokenGrant.expiry]
  by_cases h : (date.plusSeconds token.expiresIn.toNat).InCalendar
  · simp only [h, ↓reduceIte]
  · simp only [h, ↓reduceIte]

theorem expiry_of_ordinary (hd : date.inLeap = false) :
    token.expiry date = ofNanos (date.nanos + token.lifetime) := by
  rw [TokenGrant.expiry, TokenGrant.lifetime, ← Int.toNat_eq_max]
  cases token.expiresIn.toNat with
  | zero => simpa [UtcTime.plusSeconds] using UtcTime.eq_ofNanos hd
  | succ n => simp [UtcTime.plusSeconds, hd]

/-- No credential comes of a token exactly if its expiry lies beyond the calendar. Issued before the year 10000, a
token may live for a quarter of a million years. -/
theorem issued_within_calendar (hd : date.InCalendar) :
    (issued token date = .error .expiry ↔ ¬ (token.expiry date).InCalendar) ∧
    ((token.expiry date).InCalendar → issued token date =
      .ok ⟨token.accessToken, token.tokenType.getD "Bearer", token.expiry date, token.refreshToken⟩) ∧
    (date.inLeap = false → token.expiry date = ofNanos (date.nanos + max token.expiresIn 0 * second)) ∧
    (date.InYears 1970 9999 → token.expiresIn ≤ 7956864576000 → (token.expiry date).InCalendar) := by
  have hissued : issued token date = _ := issued_eq hd.earliest_le
  refine ⟨?_, fun h => hissued.trans (if_pos h), expiry_of_ordinary, fun hyears hshort => ?_⟩
  · rw [hissued]
    split <;> simp_all
  · exact UtcTime.plusSeconds_inCalendar hyears (Int.toNat_le.mpr hshort)

/-- A token for one second that is issued half way through a leap second expires half a second behind it. -/
theorem issued_within_calendar_leap :
    issued ⟨"abc", 1, none, none, none⟩ ⟨1483228800500000000, true⟩ =
      .ok ⟨"abc", "Bearer", ofNanos 1483228800500000000, none⟩ :=
  (issued_within_calendar (by decide)).2.1 (by decide)

/-- The longest lifetime that a token endpoint can grant leads beyond the calendar. -/
theorem issued_unending : ∃ token,
    Json.Decode.text? TokenGrant.decoder "\x7b\"access_token\":\"abc\",\"expires_in\":9223372036854775807\x7d" =
      some token ∧
    (ofNanos (1700000000 * second)).InYears 1970 9999 ∧
    issued token (ofNanos (1700000000 * second)) = .error .expiry := by
  refine ⟨⟨"abc", 9223372036854775807, none, none, none⟩, ?_, ?_, ?_⟩
  · decide +kernel
  · decide
  · rfl

end Issue

section Due

theorem needsRefresh_eq_false {buffer : Span} :
    c.needsRefresh now buffer = false ↔
      ∃ due, c.expiresAt.step? (-buffer.nanos) = some due ∧ ¬ due ≤ now := by
  unfold needsRefresh
  cases c.expiresAt.step? (-buffer.nanos) <;> simp

theorem needsRefresh_mono (c : Credential) {now later : UtcTime} {buffer : Span}
    (h : now ≤ later) (hn : c.needsRefresh now buffer = true) : c.needsRefresh later buffer = true := by
  unfold needsRefresh at hn ⊢
  split
  · rfl
  · rename_i due hdue
    rw [hdue] at hn
    exact decide_eq_true (UtcTime.le_trans (of_decide_eq_true hn) h)

theorem needsRefresh_ordinary (hc : c.expiresAt.Ordinary) (hn : now.Ordinary) (buffer : Span) :
    c.needsRefresh now buffer = true ↔ c.expiresAt.nanos - buffer.nanos ≤ now.nanos := by
  have hexpires := UtcTime.eq_ofNanos hc.1
  have hback := UtcTime.step?_back (hexpires ▸ hc.2) buffer.nanos
  rw [← hexpires] at hback
  by_cases hdue : UtcTime.earliest ≤ c.expiresAt.nanos - buffer.nanos
  · rw [needsRefresh, hback, if_pos hdue, decide_eq_true_iff, UtcTime.eq_ofNanos hn.1, UtcTime.ofNanos_le_ofNanos]
    rfl
  · -- The time at which it is due lies before the calendar, and so before any time that is not.
    have hnow := hn.earliest_le_lt.1
    rw [needsRefresh, hback, if_neg hdue]
    exact iff_of_true rfl (by omega)

/-- A credential is due for a refresh exactly from the buffer before its expiry on, in whole numbers of
nanoseconds. It stays due, and is due for any longer buffer. -/
theorem needsRefresh_exactly (hc : c.expiresAt.Ordinary) (hn : now.Ordinary) (buffer : Span) :
    (c.needsRefresh now buffer = true ↔ c.expiresAt.nanos - buffer.nanos ≤ now.nanos) ∧
    (∀ later longer, later.Ordinary → now ≤ later → buffer ≤ longer →
      c.needsRefresh now buffer = true → c.needsRefresh later longer = true) := by
  refine ⟨needsRefresh_ordinary hc hn buffer, fun later longer hlater htime hbuffer hdue => ?_⟩
  have hlong : (buffer.nanos : Int) ≤ longer.nanos := Int.ofNat_le.mpr hbuffer
  have hlate := (needsRefresh_ordinary hc hlater buffer).mp (c.needsRefresh_mono htime hdue)
  exact (needsRefresh_ordinary hc hlater longer).mpr (by omega)

/-- At the ends of the calendar: the longest buffer reaches back before all of it, and a single nanosecond is
told apart. -/
theorem needsRefresh_exactly_edges :
    (Credential.mk "abc" "Bearer" (ofNanos UtcTime.earliest) none).needsRefresh (ofNanos UtcTime.earliest)
        .longest = true ∧
      (Credential.mk "abc" "Bearer" (ofNanos (UtcTime.tooLate - 1)) none).needsRefresh
        (ofNanos (UtcTime.tooLate - 2)) .zero = false := by
  have hfirst : (ofNanos UtcTime.earliest).Ordinary := ⟨rfl, by decide⟩
  have hlast : (ofNanos (UtcTime.tooLate - 1)).Ordinary := ⟨rfl, by decide⟩
  have hbefore : (ofNanos (UtcTime.tooLate - 2)).Ordinary := ⟨rfl, by decide⟩
  constructor
  · exact (needsRefresh_exactly hfirst hfirst .longest).1.mpr (by decide)
  · refine Bool.eq_false_iff.mpr fun hdue => ?_
    exact absurd ((needsRefresh_exactly hlast hbefore .zero).1.mp hdue) (by decide)

end Due

end Credential

end CatalogClient
