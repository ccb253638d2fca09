/-!
UTF-8. A byte string is read as a list of scalars and faults: a fault stands for a longest run of
bytes that begins some encoded scalar without completing it, or for one byte that begins none.
`decode?` refuses faults and `decodeLossy` writes U+FFFD for each.
-/

namespace CatalogClient.Text.Utf8

/-- An unfinished scalar: its value so far, the bytes it still needs, the range of the next one. -/
structure Pending where
  value : Nat
  missing : Nat
  least : UInt8
  greatest : UInt8
  deriving DecidableEq, Repr

/-- What the first byte of a scalar gives: a whole scalar, a fault, or an unfinished scalar. -/
inductive Lead
  | whole (c : Char)
  | fault
  | unfinished (p : Pending)
  deriving DecidableEq, Repr

def lead (b : UInt8) : Lead :=
  if b < 0x80 then .whole (Char.ofNat b.toNat)
  else if b < 0xC2 then .fault
  else if b < 0xE0 then .unfinished ⟨b.toNat % 32, 1, 0x80, 0xBF⟩
  else if b = 0xE0 then .unfinished ⟨0, 2, 0xA0, 0xBF⟩
  else if b = 0xED then .unfinished ⟨13, 2, 0x80, 0x9F⟩
  else if b < 0xF0 then .unfinished ⟨b.toNat % 16, 2, 0x80, 0xBF⟩
  else if b = 0xF0 then .unfinished ⟨0, 3, 0x90, 0xBF⟩
  else if b < 0xF4 then .unfinished ⟨b.toNat % 8, 3, 0x80, 0xBF⟩
  else if b = 0xF4 then .unfinished ⟨4, 3, 0x80, 0x8F⟩
  else .fault

/-- Scalars (`some`) and faults (`none`) of a byte string, after an unfinished scalar or none. -/
def scan : Option Pending → List UInt8 → List (Option Char)
  | none, [] => []
  | some _, [] => [none]
  | none, b :: bs =>
    match lead b with
    | .whole c => some c :: scan none bs
    | .fault => none :: scan none bs
    | .unfinished p => scan (some p) bs
  | some p, b :: bs =>
    if p.least ≤ b ∧ b ≤ p.greatest then
      let value := p.value * 64 + b.toNat % 64
      if p.missing ≤ 1 then some (Char.ofNat value) :: scan none bs
      else scan (some ⟨value, p.missing - 1, 0x80, 0xBF⟩) bs
    else
      none :: match lead b with
        | .whole c => some c :: scan none bs
        | .fault => none :: scan none bs
        | .unfinished p => scan (some p) bs

def decode? (bytes : List UInt8) : Option String :=
  ((scan none bytes).mapM id).map String.ofList

/-- The text of a byte string, with the given character for each fault. -/
def decodeWith (standIn : Char) (bytes : List UInt8) : String :=
  String.ofList ((scan none bytes).map (·.getD standIn))

def decodeLossy (bytes : List UInt8) : String := decodeWith '\uFFFD' bytes

def encode (s : String) : List UInt8 :=
  s.toList.flatMap String.utf8EncodeChar

end CatalogClient.Text.Utf8
