import CatalogClient.Decimal.Binary64
/-!
The shortest decimal that reads back as a given finite number: of the decimal grids with 1, 2, …
digits the first on which one of the number's two neighbours reads back, and of two such
neighbours the nearer one.
-/

namespace CatalogClient.Decimal

/-- `digits · 10 ^ exponent`. -/
structure Scientific where
  digits : Nat
  exponent : Int
  deriving DecidableEq, Repr

namespace Scientific

def toBinary64 (s : Scientific) : Binary64 := Binary64.ofDecimal false s.digits s.exponent

/-- The place of the leading digit of a positive fraction: `10 ^ p ≤ num / den < 10 ^ (p + 1)`.
The estimate from the lengths of the two numbers is at most one too great. -/
def leadingPlace (num den : Nat) : Int :=
  let p : Int := (write num).length - (write den).length
  let above : Bool :=
    if 0 ≤ p then den * powerOfTen p.toNat ≤ num else den ≤ num * powerOfTen (-p).toNat
  if above then p else p - 1

/-- A fraction divided by `10 ^ e`, as quotient, remainder and divisor. -/
def onGrid (num den : Nat) (e : Int) : Nat × Nat × Nat :=
  if 0 ≤ e then let d := den * powerOfTen e.toNat; (num / d, num % d, d)
  else let n := num * powerOfTen (-e).toNat; (n / den, n % den, den)

/-- The neighbour on the grid `10 ^ e` that reads back as `x`, if there is one. -/
def onGrid? (x : Binary64) (e : Int) : Option Scientific :=
  let (q, r, d) := onGrid x.ratio.1 x.ratio.2 e
  let low : Scientific := ⟨q, e⟩
  let high : Scientific := ⟨q + 1, e⟩
  let target := Binary64.ofMagnitude false x.magnitude
  let lowReads := low.toBinary64 = target
  let highReads := high.toBinary64 = target
  let nearerLow := 2 * r < d ∨ (2 * r = d ∧ q % 2 = 0)
  if lowReads ∧ (nearerLow ∨ ¬ highReads) then some low
  else if highReads then some high
  else none

/-- The same number without trailing zero digits. -/
def strip : Nat → Scientific → Scientific
  | 0, s => s
  | fuel + 1, s =>
    if s.digits ≠ 0 ∧ s.digits % 10 = 0 then strip fuel ⟨s.digits / 10, s.exponent + 1⟩ else s

/-- The shortest decimal of a finite number other than zero, without its sign. -/
def shortest (x : Binary64) : Scientific :=
  let p := leadingPlace x.ratio.1 x.ratio.2
  let hit := (List.range 17).findSome? fun (n : Nat) => onGrid? x (p - (n : Int))
  strip 20 (hit.getD ⟨0, 0⟩)

end Scientific

end CatalogClient.Decimal
