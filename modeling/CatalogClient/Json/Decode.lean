import CatalogClient.Json.Document
/-!
Typed values of JSON documents. A decoder gets the number of arrays and objects that may still be
entered and answers `none` when the document has another form. A record is read from an object,
where members it does not know are passed over and a known one must not stand twice, or from an
array of its fields in the order of their declaration.
-/

namespace CatalogClient.Json

/-- A decoder, given the depth that is left. -/
abbrev Decoder (α : Type) := Nat → Document → Option α

namespace Decode

def json : Decoder Json := fun depth d => d.toJson? depth

def string : Decoder String
  | _, .string s => s
  | _, _ => none

def unit : Decoder Unit
  | _, .null => some ()
  | _, _ => none

def bool : Decoder Bool
  | _, .bool b => some b
  | _, _ => none

/-- An integer literal with `least ≤ n < bound`. -/
def int (least bound : Int) : Decoder Int
  | _, .number l =>
    match Number.ofLiteral? l with
    | some (.integer n _) => if least ≤ n ∧ n < bound then some n else none
    | _ => none
  | _, _ => none

def natBelow (bound : Nat) : Decoder Nat := fun depth d =>
  (int 0 bound depth d).map Int.toNat

def nat16 : Decoder Nat := natBelow Width.beyond16

def nat32 : Decoder Nat := natBelow Width.beyond32

def nat64 : Decoder Nat := natBelow Width.beyond64

def int64 : Decoder Int := int (-9223372036854775808) 9223372036854775808

/-- `null` is the absent value. -/
def option (f : Decoder α) : Decoder (Option α)
  | _, .null => some none
  | depth, d => (f depth d).map some

/-- One of several values by its name, which stands alone or is the only key of an object and has
`null` for its value. -/
def named (all : List α) (name : α → String) : Decoder α
  | _, .string (some s) => all.find? (name · = s)
  | _ + 1, .object [(some s, .null)] => all.find? (name · = s)
  | _, _ => none

def list (f : Decoder α) : Decoder (List α)
  | depth + 1, .array xs => xs.mapM (f depth)
  | _, _ => none

/-- The members of an object in the order of their keys; of members with one key the last one
stays. -/
def members (f : Decoder α) : Decoder (List (String × α))
  | depth + 1, .object ms => do
    let pairs ← ms.mapM fun (k, d) => do return (← k, ← f depth d)
    return pairs.foldl (fun acc (k, a) => insert k a acc) []
  | _, _ => none
where
  insert (k : String) (a : α) : List (String × α) → List (String × α)
    | [] => [(k, a)]
    | (l, b) :: ms =>
      if k = l then (k, a) :: ms
      else if k < l then (k, a) :: (l, b) :: ms
      else (l, b) :: insert k a ms

/-- The fields of a record that a document gives, each a document of its own. -/
structure Fields where
  given : List (String × Document)
  /-- The record is written as an array. -/
  positional : Bool
  depth : Nat

def fields (names : List String) : Decoder Fields
  | depth + 1, .array xs =>
    if names.length < xs.length then none else some ⟨names.zip xs, true, depth⟩
  | depth + 1, .object ms => do
    let known ← ms.foldlM (fun acc (k, d) => do
      let k ← k
      if k ∈ names then
        if acc.any (·.1 = k) then none else some ((k, d) :: acc)
      else some acc) []
    return ⟨known, false, depth⟩
  | _, _ => none

namespace Fields

def find? (fs : Fields) (name : String) : Option Document :=
  (fs.given.find? (·.1 = name)).map (·.2)

def required (fs : Fields) (name : String) (f : Decoder α) : Option α := do
  f fs.depth (← fs.find? name)

/-- A field that may be absent from an object, though not from an array. -/
def optional (fs : Fields) (name : String) (f : Decoder α) : Option (Option α) :=
  match fs.find? name with
  | some d => option f fs.depth d
  | none => if fs.positional then none else some none

def defaulted (fs : Fields) (name : String) (f : Decoder α) (default : α) : Option α :=
  match fs.find? name with
  | some d => f fs.depth d
  | none => some default

end Fields

def text? (f : Decoder α) (s : String) : Option α := do
  f Document.maxDepth (← Document.read? s)

def bytes? (f : Decoder α) (bytes : List UInt8) : Option α := do
  f Document.maxDepth (← Document.ofBytes? bytes)

end Decode

end CatalogClient.Json
