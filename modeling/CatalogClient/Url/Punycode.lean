/-!
Punycode: a label with characters beyond ASCII as ASCII letters, digits and hyphens. Each character
beyond ASCII is a difference to the one before it, in ascending order, written with digits of base
36 whose thresholds adapt to the differences met so far.
-/

namespace CatalogClient.Url.Punycode

def digit (n : Nat) : Char :=
  if n < 26 then Char.ofNat ('a'.toNat + n) else Char.ofNat ('0'.toNat + (n - 26))

def digitValue? (c : Char) : Option Nat :=
  if 'a' ≤ c ∧ c ≤ 'z' then some (c.toNat - 'a'.toNat)
  else if 'A' ≤ c ∧ c ≤ 'Z' then some (c.toNat - 'A'.toNat)
  else if '0' ≤ c ∧ c ≤ '9' then some (c.toNat - '0'.toNat + 26)
  else none

def threshold (k bias : Nat) : Nat :=
  if k ≤ bias then 1 else if bias + 26 ≤ k then 26 else k - bias

/-- Divides by 35 until at most 455 is left, counting 36 for each division. -/
def damp (delta k : Nat) : Nat × Nat :=
  if 455 < delta then damp (delta / 35) (k + 36) else (delta, k)
termination_by delta
decreasing_by omega

def adapt (delta count : Nat) (first : Bool) : Nat :=
  let d := if first then delta / 700 else delta / 2
  let (d, k) := damp (d + d / count) 0
  k + 36 * d / (d + 38)

/-- The digits of a difference, least significant first. -/
def encodeDelta (bias k q : Nat) : List Char :=
  let t := threshold k bias
  if q < t then [digit q]
  else digit (t + (q - t) % (36 - t)) :: encodeDelta bias (k + 36) ((q - t) / (36 - t))
termination_by q
decreasing_by
  have : 1 ≤ threshold k bias := by unfold threshold; split <;> (try split) <;> omega
  exact Nat.lt_of_le_of_lt (Nat.div_le_self _ _) (by omega)

structure Encoder where
  output : List Char
  delta : Nat
  bias : Nat
  handled : Nat

def Encoder.see (basic m : Nat) (e : Encoder) (c : Char) : Encoder :=
  if c.toNat < m then { e with delta := e.delta + 1 }
  else if c.toNat = m then
    ⟨e.output ++ encodeDelta e.bias 36 e.delta, 0, adapt e.delta (e.handled + 1) (e.handled = basic),
      e.handled + 1⟩
  else e

/-- All differences to the character number `m`, after those to smaller numbers. -/
def Encoder.point (label : List Char) (basic : Nat) (e : Encoder × Nat) (m : Nat) : Encoder × Nat :=
  let before := { e.1 with delta := e.1.delta + (m - e.2) * (e.1.handled + 1) }
  let behind := label.foldl (Encoder.see basic m) before
  ({ behind with delta := behind.delta + 1 }, m + 1)

def insertPoint (n : Nat) : List Nat → List Nat
  | [] => [n]
  | m :: ms => if n = m then m :: ms else if n < m then n :: m :: ms else m :: insertPoint n ms

def encode (label : List Char) : List Char :=
  let plain := label.filter (·.toNat < 128)
  let points := (label.map Char.toNat).foldl (fun ps n => if n < 128 then ps else insertPoint n ps) []
  let start := if plain = [] then [] else plain ++ ['-']
  (points.foldl (Encoder.point label plain.length) (⟨start, 0, 72, plain.length⟩, 128)).1.output

/-- A difference at the head of the digits, and the digits behind it. -/
def decodeDelta (bias : Nat) : Nat → Nat → Nat → List Char → Option (Nat × List Char)
  | _, _, _, [] => none
  | k, weight, i, c :: cs => do
    let d ← digitValue? c
    let i := i + d * weight
    let t := threshold k bias
    if d < t then some (i, cs) else decodeDelta bias (k + 36) (weight * (36 - t)) i cs

def decodeLoop : Nat → List Char → List Char → Nat → Nat → Nat → Option (List Char)
  | _, output, [], _, _, _ => some output
  | 0, _, _, _, _, _ => none
  | fuel + 1, output, digits, n, i, bias => do
    let (j, rest) ← decodeDelta bias 36 1 i digits
    let count := output.length + 1
    let bias := adapt (j - i) count (i = 0)
    let n := n + j / count
    let place := j % count
    if n ≤ 0x10FFFF ∧ ¬ (0xD800 ≤ n ∧ n < 0xE000) then
      decodeLoop fuel (output.take place ++ Char.ofNat n :: output.drop place) rest n (place + 1) bias
    else none

def decode? (label : List Char) : Option (List Char) :=
  let tail := (label.reverse.takeWhile (· ≠ '-')).reverse
  let plain := if '-' ∈ label then label.take (label.length - tail.length - 1) else []
  decodeLoop tail.length plain tail 128 0 72

end CatalogClient.Url.Punycode
