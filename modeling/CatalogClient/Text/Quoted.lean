import CatalogClient.Text.Unprintable
/-!
Quoted texts of records shown for inspection: between double quotes, with short escapes for NUL,
tab, line feed, carriage return, double quote and backslash, and unprintable characters by number.
-/

namespace CatalogClient.Text.Quoted

/-- A character by its number: a backslash, `u`, and lower-case hexadecimal digits in braces. -/
def byNumber (c : Char) : List Char :=
  ['\\', 'u', '\x7b'] ++ Nat.toDigits 16 c.toNat ++ ['\x7d']

def encodeChar (c : Char) : List Char :=
  if c = '\x00' then ['\\', '0']
  else if c = '\t' then ['\\', 't']
  else if c = '\n' then ['\\', 'n']
  else if c = '\r' then ['\\', 'r']
  else if c = '"' then ['\\', '"']
  else if c = '\\' then ['\\', '\\']
  else if c.toNat < 0x20 || c.toNat == 0x7F || isUnprintable c then byNumber c
  else [c]

def encode (s : String) : String :=
  String.ofList (['"'] ++ s.toList.flatMap encodeChar ++ ['"'])

end CatalogClient.Text.Quoted
