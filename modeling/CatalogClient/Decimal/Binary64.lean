import CatalogClient.Decimal.Digits
/-!
Binary floating-point numbers of 64 bits, by exact arithmetic on fractions: the number nearest to
a fraction (ties to the even significand), products and quotients rounded that way, and the number
nearest to a decimal.
-/

namespace CatalogClient.Decimal

/-- Sign bit, eleven exponent bits and 52 fraction bits. -/
structure Binary64 where
  bits : UInt64
  deriving DecidableEq, Repr

namespace Binary64

/-- The number that the sign bit stands for. -/
def signBit : Nat := 1 <<< 63

/-- The number that stands for one step of the exponent. -/
def exponentStep : Nat := 1 <<< 52

def isNegative (x : Binary64) : Bool := x.bits.toNat ≥ signBit

/-- The bits without the sign: magnitudes are ordered as these numbers are. -/
def magnitude (x : Binary64) : Nat := x.bits.toNat % signBit

/-- The magnitude of the infinities; every finite number lies below it. -/
def infiniteMagnitude : Nat := 2047 * exponentStep

def isFinite (x : Binary64) : Bool := x.magnitude < infiniteMagnitude

def isZero (x : Binary64) : Bool := x.magnitude = 0

/-- A finite number is `significand · 2 ^ exponent`, up to its sign. -/
def significand (x : Binary64) : Nat :=
  if x.magnitude < exponentStep then x.magnitude else x.magnitude % exponentStep + exponentStep

def exponent (x : Binary64) : Int :=
  if x.magnitude < exponentStep then -1074 else (x.magnitude / exponentStep : Nat) - 1075

def ofMagnitude (negative : Bool) (m : Nat) : Binary64 :=
  ⟨UInt64.ofNat (m + if negative then signBit else 0)⟩

def zero (negative : Bool) : Binary64 := ofMagnitude negative 0

/-- `num / den` rounded to the nearest natural number, a tie to the even one. -/
def roundDiv (num den : Nat) : Nat :=
  let q := num / den
  let r := num % den
  if 2 * r < den then q
  else if den < 2 * r then q + 1
  else q + q % 2

/-- The exponent of the binary grid on which a fraction's neighbours lie. -/
def gridExponent (num den : Nat) : Int :=
  let e : Int := (Nat.log2 num : Int) - Nat.log2 den
  let below : Bool :=
    if 0 ≤ e then num < den <<< e.toNat else num <<< (-e).toNat < den
  max ((if below then e - 1 else e) - 52) (-1074)

/-- The number nearest to `num / den`; a fraction beyond the greatest finite number goes to
infinity. -/
def nearest (negative : Bool) (num den : Nat) : Binary64 :=
  if num = 0 then zero negative
  else
    let q := gridExponent num den
    let m := if 0 ≤ q then roundDiv num (den <<< q.toNat) else roundDiv (num <<< (-q).toNat) den
    ofMagnitude negative (min (m + (q + 1074).toNat * exponentStep) infiniteMagnitude)

def ratio (x : Binary64) : Nat × Nat :=
  if 0 ≤ x.exponent then (x.significand <<< x.exponent.toNat, 1)
  else (x.significand, 1 <<< (-x.exponent).toNat)

def ofNat (n : Nat) : Binary64 := nearest false n 1

def neg (x : Binary64) : Binary64 := ofMagnitude (!x.isNegative) x.magnitude

def mulAbs (x y : Binary64) : Binary64 :=
  nearest false (x.ratio.1 * y.ratio.1) (x.ratio.2 * y.ratio.2)

/-- The quotient of two finite numbers without their signs; the divisor is not zero. -/
def divAbs (x y : Binary64) : Binary64 :=
  nearest false (x.ratio.1 * y.ratio.2) (x.ratio.2 * y.ratio.1)

/-- The number nearest to `n · 10 ^ e`. Decimals far outside the range are settled by their
number of digits. -/
def ofDecimal (negative : Bool) (n : Nat) (e : Int) : Binary64 :=
  let places : Int := (write n).length + e
  if n = 0 || places < -330 then zero negative
  else if 320 < places then ofMagnitude negative infiniteMagnitude
  else if 0 ≤ e then nearest negative (n * powerOfTen e.toNat) 1
  else nearest negative n (powerOfTen (-e).toNat)

end Binary64

end CatalogClient.Decimal
