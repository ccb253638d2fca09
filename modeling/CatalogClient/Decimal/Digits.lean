/-!
Decimal digits: numbers written with them, read from them, and bounded integers read from text.
-/

namespace CatalogClient.Decimal

def isDigit (c : Char) : Bool := '0' ≤ c && c ≤ '9'

def digitValue (c : Char) : Nat := c.toNat - '0'.toNat

/-- `10 ^ e`. -/
def powerOfTen : Nat → Nat
  | 0 => 1
  | e + 1 => 10 * powerOfTen e

def value (cs : List Char) : Nat :=
  cs.foldl (fun n c => 10 * n + digitValue c) 0

def write (n : Nat) : List Char := Nat.toDigits 10 n

def writeInt : Int → List Char
  | .ofNat n => write n
  | .negSucc n => '-' :: write (n + 1)

/-- `n` with zeros in front, up to the given width. -/
def writePadded (width n : Nat) : List Char :=
  let ds := write n
  List.replicate (width - ds.length) '0' ++ ds

inductive IntegerFault
  | empty
  | invalidDigit
  | tooLarge
  deriving DecidableEq, Repr

def IntegerFault.message : IntegerFault → String
  | .empty => "cannot parse integer from empty string"
  | .invalidDigit => "invalid digit found in string"
  | .tooLarge => "number too large to fit in target type"

/-- A number below `bound`: digits, with at most one plus sign before them. The leftmost fault
decides: a digit that exceeds the bound is met before an invalid character behind it. -/
def readBelow (bound : Nat) (s : String) : Except IntegerFault Nat :=
  match s.toList with
  | [] => .error .empty
  | ['+'] => .error .invalidDigit
  | '+' :: cs => go cs 0
  | cs => go cs 0
where
  go : List Char → Nat → Except IntegerFault Nat
    | [], n => .ok n
    | c :: cs, n =>
      if isDigit c then
        let m := 10 * n + digitValue c
        if m < bound then go cs m else .error .tooLarge
      else .error .invalidDigit

end CatalogClient.Decimal
