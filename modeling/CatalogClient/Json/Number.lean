import CatalogClient.Decimal.Shortest
import CatalogClient.Width
/-!
Numbers of JSON texts: integers of 64 bits, with or without sign, and finite binary64 numbers for
everything else. A literal keeps the characters as they are written.
-/

namespace CatalogClient.Json

open Decimal

def InRange (n : Int) : Prop := -9223372036854775808 ≤ n ∧ n < 18446744073709551616

instance (n : Int) : Decidable (InRange n) := inferInstanceAs (Decidable (_ ∧ _))

inductive Number
  | integer (n : Int) (inRange : InRange n)
  | double (x : Binary64)
  deriving DecidableEq, Repr

structure Literal where
  negative : Bool
  whole : List Char
  fraction : Option (List Char)
  exponent : Option (Bool × List Char)
  deriving DecidableEq, Repr

namespace Number

def ofInt (n : Int) : Number :=
  if h : InRange n then .integer n h else .double (Binary64.nearest (n < 0) n.natAbs 1)

def ofNat (n : Nat) : Number := ofInt n

/-- Digits are collected while the number they form stays below `2 ^ 64`; returned are that number
and the digits left over. -/
def collect : Nat → List Char → Nat × List Char
  | n, [] => (n, [])
  | n, c :: cs =>
    let m := 10 * n + digitValue c
    if m < Width.beyond64 then collect m cs else (n, c :: cs)

/-- Scaling by powers of ten up to `10 ^ 308`, each step rounded. `none` is beyond the range. -/
def scale (x : Binary64) (e : Int) : Option Binary64 :=
  if 0 ≤ e then
    if 308 < e then (if x.isZero then some x else none)
    else
      let y := x.mulAbs (Binary64.ofDecimal false 1 e)
      if y.isFinite then some y else none
  else some (divide 4 x (-e).toNat)
where
  divide : Nat → Binary64 → Nat → Binary64
    | 0, x, _ => x
    | steps + 1, x, e =>
      if e ≤ 308 then x.divAbs (Binary64.ofDecimal false 1 e)
      else if x.isZero then x
      else divide steps (x.divAbs (Binary64.ofDecimal false 1 308)) (e - 308)

def signed (negative : Bool) (x : Binary64) : Number :=
  .double (if negative then x.neg else x)

/-- The double a literal with a point, an exponent or too many digits denotes: its leading digits
as one rounded number, scaled by the power of ten that the other digits and the exponent give. -/
def doubleOf (l : Literal) : Option Number :=
  let (n, overflow) := collect 0 l.whole
  let (m, fractionDigits) :=
    match l.fraction with
    | none => (n, 0)
    | some ds => let (m, rest) := collect n ds; (m, ds.length - rest.length)
  let shift : Int := overflow.length - fractionDigits
  let limit := Width.beyond32 / 2
  match l.exponent with
  | none => (scale (Binary64.ofNat m) shift).map (signed l.negative)
  | some (negativeExponent, ds) =>
    if limit ≤ value ds then
      if m = 0 ∨ negativeExponent then some (signed l.negative (Binary64.zero false)) else none
    else
      let e : Int := if negativeExponent then -(value ds) else value ds
      (scale (Binary64.ofNat m) (shift + e)).map (signed l.negative)

/-- The value of a literal. Digits alone are an integer when it is in range, except that `-0` is
the negative zero of the doubles. -/
def ofLiteral? (l : Literal) : Option Number :=
  if l.fraction.isNone ∧ l.exponent.isNone then
    let n : Int := if l.negative then -(value l.whole) else value l.whole
    if l.negative ∧ n = 0 then some (.double (Binary64.zero true))
    else if h : InRange n then some (.integer n h)
    else doubleOf l
  else doubleOf l

/-- The layout of doubles: positional from `10 ^ -5` to below `10 ^ 16`, always with a point or an
exponent, and the exponent with its sign. -/
def writeDouble (x : Binary64) : List Char :=
  let sign := if x.isNegative then ['-'] else []
  if x.isZero then sign ++ ['0', '.', '0']
  else
    let s := Scientific.shortest x
    let ds := write s.digits
    let point : Int := ds.length + s.exponent
    sign ++
      if 0 ≤ s.exponent ∧ point ≤ 16 then ds ++ List.replicate s.exponent.toNat '0' ++ ['.', '0']
      else if 0 < point ∧ point ≤ 16 then ds.take point.toNat ++ '.' :: ds.drop point.toNat
      else if -5 < point ∧ point ≤ 0 then ['0', '.'] ++ List.replicate (-point).toNat '0' ++ ds
      else
        let fraction := if ds.length = 1 then [] else '.' :: ds.drop 1
        let place := point - 1
        ds.take 1 ++ fraction ++ ['e', if place < 0 then '-' else '+'] ++ write place.natAbs

def write : Number → List Char
  | .integer n _ => writeInt n
  | .double x => writeDouble x

end Number

end CatalogClient.Json
