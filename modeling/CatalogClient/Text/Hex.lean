/-!
Bytes as pairs of hexadecimal digits.
-/

namespace CatalogClient.Text.Hex

def encode (bytes : List UInt8) : String :=
  String.ofList (bytes.flatMap fun b =>
    [Nat.digitChar (b.toNat / 16), Nat.digitChar (b.toNat % 16)])

def digitValue (c : Char) : Nat :=
  if c ≤ '9' then c.toNat - 48 else if c ≤ 'F' then c.toNat - 55 else c.toNat - 87

/-- The bytes of a list of digits; a digit without a second one counts for nothing. -/
def decode : List Char → List UInt8
  | a :: b :: cs => (digitValue a * 16 + digitValue b).toUInt8 :: decode cs
  | _ => []

end CatalogClient.Text.Hex
