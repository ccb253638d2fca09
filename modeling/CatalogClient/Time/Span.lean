import CatalogClient.Decimal.Binary64
import CatalogClient.Width
/-!
Lengths of time in whole nanoseconds, below `2 ^ 64` seconds, and instants of a clock that starts
at zero and ends at a horizon. Sums that leave either range have no value.
-/

namespace CatalogClient

def nanosPerSecond : Nat := 1000000000

def nanosPerMilli : Nat := 1000000

structure Span where
  nanos : Nat
  inRange : nanos < Width.beyond64 * nanosPerSecond
  deriving DecidableEq, Repr

namespace Span

def longest : Span := ⟨Width.beyond64 * nanosPerSecond - 1, by decide⟩

def ofNanos (n : Nat) : Span :=
  if h : n < Width.beyond64 * nanosPerSecond then ⟨n, h⟩ else longest

def ofNanos? (n : Nat) : Option Span :=
  if h : n < Width.beyond64 * nanosPerSecond then some ⟨n, h⟩ else none

def ofMillis (n : Nat) : Span := ofNanos (n * nanosPerMilli)

def ofSeconds (n : Nat) : Span := ofNanos (n * nanosPerSecond)

theorem nanos_ofSeconds {n : Nat} (h : n < Width.beyond64) : (ofSeconds n).nanos = n * nanosPerSecond := by
  have hrange : n * nanosPerSecond < Width.beyond64 * nanosPerSecond := Nat.mul_lt_mul_of_pos_right h (by decide)
  rw [ofSeconds, ofNanos, dif_pos hrange]

def zero : Span := ⟨0, by decide⟩

instance : Inhabited Span := ⟨zero⟩

instance : LE Span := ⟨fun a b => a.nanos ≤ b.nanos⟩

instance : LT Span := ⟨fun a b => a.nanos < b.nanos⟩

instance (a b : Span) : Decidable (a ≤ b) := inferInstanceAs (Decidable (a.nanos ≤ b.nanos))

instance (a b : Span) : Decidable (a < b) := inferInstanceAs (Decidable (a.nanos < b.nanos))

instance : Min Span := ⟨fun a b => if a ≤ b then a else b⟩

instance : Max Span := ⟨fun a b => if a ≤ b then b else a⟩

theorem nanos_min (a b : Span) : (min a b).nanos = min a.nanos b.nanos := by
  show (if a ≤ b then a else b).nanos = _
  by_cases h : a.nanos ≤ b.nanos
  · rw [if_pos (show a ≤ b from h), Nat.min_eq_left h]
  · rw [if_neg (show ¬ a ≤ b from h), Nat.min_eq_right (Nat.le_of_lt (Nat.lt_of_not_le h))]

theorem min_le_right (a b : Span) : min a b ≤ b := by
  change (min a b).nanos ≤ b.nanos
  rw [nanos_min]
  exact Nat.min_le_right _ _

theorem nanos_max (a b : Span) : (max a b).nanos = max a.nanos b.nanos := by
  show (if a ≤ b then b else a).nanos = _
  by_cases h : a.nanos ≤ b.nanos
  · rw [if_pos (show a ≤ b from h), Nat.max_eq_right h]
  · rw [if_neg (show ¬ a ≤ b from h), Nat.max_eq_left (Nat.le_of_lt (Nat.lt_of_not_le h))]

theorem eq_of_nanos {a b : Span} (h : a.nanos = b.nanos) : a = b := by
  cases a; cases b; cases h; rfl

def isZero (s : Span) : Bool := s.nanos = 0

def mul? (s : Span) (k : Nat) : Option Span := ofNanos? (s.nanos * k)

def wholeMillis (s : Span) : Nat := min (s.nanos / nanosPerMilli) (Width.beyond64 - 1)

/-- A finite number of seconds, rounded to the nearest nanosecond, a tie to the even one. -/
def ofBinary64? (x : Decimal.Binary64) : Option Span :=
  if x.isFinite ∧ (¬ x.isNegative ∨ x.isZero) then
    ofNanos? (Decimal.Binary64.roundDiv (x.ratio.1 * nanosPerSecond) x.ratio.2)
  else none

/-- `n / 10 ^ places` in decimal, without trailing zeros behind the point. -/
def decimal (n places : Nat) : List Char :=
  let digits := Decimal.writePadded places (n % Decimal.powerOfTen places)
  let fraction := digits.reverse.dropWhile (· = '0')
  Decimal.write (n / Decimal.powerOfTen places) ++
    if fraction = [] ∨ places = 0 then [] else '.' :: fraction.reverse

def describe (s : Span) : String :=
  if nanosPerSecond ≤ s.nanos then String.ofList (decimal s.nanos 9) ++ "s"
  else if nanosPerMilli ≤ s.nanos then String.ofList (decimal s.nanos 6) ++ "ms"
  else if 1000 ≤ s.nanos then String.ofList (decimal s.nanos 3) ++ "µs"
  else String.ofList (decimal s.nanos 0) ++ "ns"

end Span

structure Instant where
  nanos : Nat
  deriving DecidableEq, Repr, Inhabited

namespace Instant

def start : Instant := ⟨0⟩

instance : LE Instant := ⟨fun a b => a.nanos ≤ b.nanos⟩

instance : LT Instant := ⟨fun a b => a.nanos < b.nanos⟩

instance (a b : Instant) : Decidable (a ≤ b) := inferInstanceAs (Decidable (a.nanos ≤ b.nanos))

instance (a b : Instant) : Decidable (a < b) := inferInstanceAs (Decidable (a.nanos < b.nanos))

/-- No clock reading lies at or beyond the horizon. -/
def horizon : Nat := (Width.beyond64 / 2 - 1) * nanosPerSecond

def add? (t : Instant) (s : Span) : Option Instant :=
  if t.nanos + s.nanos < horizon then some ⟨t.nanos + s.nanos⟩ else none

def since (t s : Instant) : Span := Span.ofNanos (t.nanos - s.nanos)

/-- A timer of length `d` that is started at `t` ends at a whole millisecond. -/
def timer (t : Instant) (d : Span) : Instant :=
  ⟨(t.nanos + d.nanos + (nanosPerMilli - 1)) / nanosPerMilli * nanosPerMilli⟩

theorem le_timer (t : Instant) (d : Span) : t.nanos + d.nanos ≤ (t.timer d).nanos := by
  simp only [timer, nanosPerMilli]
  omega

end Instant

end CatalogClient
