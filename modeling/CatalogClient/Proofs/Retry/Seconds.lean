import CatalogClient.Proofs.Decimal.Reader
import CatalogClient.Proofs.Pipeline.Spacing
/-!
A pause that is asked for as a whole number of seconds. It is granted up to the longest pause, unless the number lies
beyond the floating-point numbers: there is no pause then.
-/

namespace CatalogClient

open Decimal Decimal.Binary64

/-- A number that is a whole one is as many seconds. -/
theorem Decimal.Binary64.Denotes.roundDiv_nanos {x : Binary64} {w : Nat} (h : Denotes x w) :
    roundDiv (x.ratio.1 * nanosPerSecond) x.ratio.2 = w * nanosPerSecond := by
  rw [h.ratio, Nat.mul_right_comm, roundDiv_mul x.ratio_pos]

namespace Response

variable {r : Response} {headers : List (String × String)} {ds : List Char} {value : String}

/-- The first header of the name, in whatever letters, is a number of seconds that is written with these digits. -/
structure AsksSeconds (headers : List (String × String)) (ds : List Char) : Prop where
  first : ∃ before name value after, headers = before ++ (name, value) :: after ∧
    Text.sameIgnoringCase name "Retry-After" ∧ (∀ h ∈ before, ¬Text.sameIgnoringCase h.1 "Retry-After") ∧
    Text.trim value = String.ofList ds
  nonempty : ds ≠ []
  digits : ∀ c ∈ ds, isDigit c = true

/-- The pause for so many seconds, if any. -/
def secondsGranted (n : Nat) : Option Span :=
  if n < leastInfinite then some (.ofSeconds (min n 3600)) else none

theorem pause?_of_denotes {x : Binary64} {w : Nat} (h : readFloat? (Text.trim value) = some x) (hx : Denotes x w) :
    pause? value = some (.ofSeconds (min w 3600)) := by
  obtain ⟨d, hd, hnanos⟩ := pause?_of_seconds h hx.isFinite (.inl (by simp [hx.isNegative]))
  have hlongest : longestPause.nanos = 3600 * nanosPerSecond := rfl
  have hseconds : (Span.ofSeconds (min w 3600)).nanos = min w 3600 * nanosPerSecond :=
    Span.nanos_ofSeconds (Nat.lt_of_le_of_lt (Nat.min_le_right _ _) (by decide))
  rw [hx.roundDiv_nanos, hlongest, Nat.mul_min_mul_right, ← hseconds] at hnanos
  rw [hd, Span.eq_of_nanos hnanos]

theorem pause?_infinite (h : readFloat? (Text.trim value) = some (ofMagnitude false infiniteMagnitude)) :
    pause? value = none := by
  have hinfinite : (ofMagnitude false infiniteMagnitude).isFinite = false := by decide
  simp [pause?, h, hinfinite]

theorem pause?_digits (h : Text.trim value = String.ofList ds) (hne : ds ≠ [])
    (hdigits : ∀ c ∈ ds, isDigit c = true) : pause? value = secondsGranted (Decimal.value ds) := by
  have hread : readFloat? (Text.trim value) = some (nearest false (Decimal.value ds) 1) := by
    rw [h, readFloat?_digits hne hdigits, ofDecimal_whole]
  rw [secondsGranted]
  split
  · rename_i hfinite
    by_cases hsmall : Decimal.value ds < 2 ^ 53
    · exact pause?_of_denotes hread (nearest_small hsmall)
    · -- What such a number is rounded to is not known here, but it is more than an hour as well.
      obtain ⟨w, hw, hdenotes⟩ := nearest_large (Nat.not_lt.mp hsmall) hfinite
      have hlong : min w 3600 = min (Decimal.value ds) 3600 := by omega
      rw [pause?_of_denotes hread hdenotes, hlong]
  · rename_i hinfinite
    exact pause?_infinite (hread.trans (congrArg some (nearest_infinite (Nat.not_lt.mp hinfinite))))

theorem retryAfter?_of_asks (h : AsksSeconds r.headers ds) : r.retryAfter? = secondsGranted (Decimal.value ds) := by
  obtain ⟨⟨before, name, value, after, hheaders, hname, hbefore, htext⟩, hne, hdigits⟩ := h
  have hheader : r.header? "retry-after" = some value := by
    have hletters : "retry-after".toList.map Char.toLower = "Retry-After".toList.map Char.toLower := by decide
    have hsame : ∀ k, Text.sameIgnoringCase k "retry-after" = Text.sameIgnoringCase k "Retry-After" := fun k => by
      rw [Text.sameIgnoringCase, hletters, Text.sameIgnoringCase]
    have hnone : before.find? (fun h => Text.sameIgnoringCase h.1 "Retry-After") = none :=
      List.find?_eq_none.mpr hbefore
    simp [header?, hsame, hheaders, List.find?_append, hnone, hname]
  rw [retryAfter?, hheader, Option.bind_some, pause?_digits htext hne hdigits]

/-- A response keeps the names of its headers in lower case, so the first of a name stays the first. -/
theorem AsksSeconds.make (h : AsksSeconds headers ds) (status : Nat) (body : List UInt8) :
    AsksSeconds (Response.make status headers body).headers ds := by
  obtain ⟨⟨before, name, value, after, rfl, hname, hbefore, htext⟩, hne, hdigits⟩ := h
  refine ⟨⟨_, _, _, _, List.map_append, ?_, ?_, htext⟩, hne, hdigits⟩
  · rwa [Text.sameIgnoringCase_lowerAscii]
  · intro h hh
    obtain ⟨h', hmem, rfl⟩ := List.mem_map.mp hh
    rw [Text.sameIgnoringCase_lowerAscii]
    exact hbefore h' hmem

/-- A number of seconds that is asked for is the pause, up to an hour, unless it lies beyond the floating-point
numbers. -/
theorem retryAfter?_seconds (h : AsksSeconds headers ds) :
    (∀ r : Response, r.headers = headers → r.retryAfter? = secondsGranted (Decimal.value ds)) ∧
    ∀ status body, (Response.make status headers body).retryAfter? = secondsGranted (Decimal.value ds) :=
  ⟨fun _ hr => retryAfter?_of_asks (hr ▸ h), fun status body => retryAfter?_of_asks (h.make status body)⟩

/-- The first of two headers of the name asks for two hours and gets one. -/
theorem retryAfter?_seconds_capped :
    AsksSeconds [("Date", "5"), ("rETRY-aFTER", " \t0007200 "), ("Retry-After", "1")] "0007200".toList ∧
    (Response.make 429 [("Date", "5"), ("rETRY-aFTER", " \t0007200 "), ("Retry-After", "1")] []).retryAfter? =
      some (.ofSeconds 3600) := by
  have hasks : AsksSeconds [("Date", "5"), ("rETRY-aFTER", " \t0007200 "), ("Retry-After", "1")] "0007200".toList :=
    ⟨⟨[("Date", "5")], _, _, [("Retry-After", "1")], rfl, by decide, by decide, by decide⟩, by decide,
      List.all_eq_true.mp (by decide)⟩
  have hgranted : secondsGranted (Decimal.value "0007200".toList) = some (.ofSeconds 3600) := by
    have hfinite : 7200 < leastInfinite := by decide +kernel
    exact if_pos hfinite
  exact ⟨hasks, ((retryAfter?_seconds hasks).2 429 []).trans hgranted⟩

/-- The digits of `10 ^ 309`. -/
def beyondFinite : List Char := '1' :: List.replicate 309 '0'

/-- Whoever asks for so many seconds gets no pause at all. -/
theorem retryAfter?_beyond_finite :
    AsksSeconds [("Retry-After", String.ofList beyondFinite)] beyondFinite ∧
    (Response.make 429 [("Retry-After", String.ofList beyondFinite)] []).retryAfter? = none := by
  have hdigits : ∀ c ∈ beyondFinite, isDigit c = true := List.all_eq_true.mp (by decide +kernel)
  have htrim : Text.trim (String.ofList beyondFinite) = String.ofList beyondFinite := by
    rw [Text.trim, String.toList_ofList]
    decide +kernel
  have hasks : AsksSeconds [("Retry-After", String.ofList beyondFinite)] beyondFinite :=
    ⟨⟨[], _, _, [], rfl, by decide, by decide, htrim⟩, by decide, hdigits⟩
  have hdropped : secondsGranted (Decimal.value beyondFinite) = none := if_neg (by decide +kernel)
  exact ⟨hasks, (retryAfter?_of_asks (hasks.make 429 [])).trans hdropped⟩

end Response

end CatalogClient
