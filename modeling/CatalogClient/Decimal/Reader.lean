import CatalogClient.Decimal.Binary64
/-!
Texts of floating-point numbers: an optional sign, then digits with at most one point and an
optional exponent, or a word for infinity or for no number. Blanks are not allowed.
-/

namespace CatalogClient.Decimal

def Binary64.infinity (negative : Bool) : Binary64 := ofMagnitude negative infiniteMagnitude

def Binary64.notANumber : Binary64 := ⟨0x7FF8000000000000⟩

def spanDigits (cs : List Char) : List Char × List Char :=
  (cs.takeWhile isDigit, cs.dropWhile isDigit)

/-- The exponent behind the digits of a number, at the end of its text. -/
def readExponent? (cs : List Char) : Option Int :=
  match cs with
  | [] => some 0
  | 'e' :: cs | 'E' :: cs =>
    let (negative, ds) := match cs with
      | '-' :: ds => (true, ds)
      | '+' :: ds => (false, ds)
      | ds => (false, ds)
    if ds = [] ∨ ¬ ds.all isDigit then none
    else some (if negative then -(value ds) else value ds)
  | _ => none

def readUnsigned? (negative : Bool) (cs : List Char) : Option Binary64 :=
  let word := String.ofList (cs.map Char.toLower)
  if word = "inf" ∨ word = "infinity" then some (.infinity negative)
  else if word = "nan" then some .notANumber
  else
    let (whole, rest) := spanDigits cs
    let (fraction, rest) := match rest with
      | '.' :: r => spanDigits r
      | r => ([], r)
    if whole = [] ∧ fraction = [] then none
    else (readExponent? rest).map fun e =>
      .ofDecimal negative (value (whole ++ fraction)) (e - fraction.length)

def readFloat? (s : String) : Option Binary64 :=
  match s.toList with
  | '-' :: cs => readUnsigned? true cs
  | '+' :: cs => readUnsigned? false cs
  | cs => readUnsigned? false cs

end CatalogClient.Decimal
