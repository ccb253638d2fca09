import CatalogClient.Json.Value
/-!
The compact text of a JSON value: no blanks, and in strings only the double quote, the backslash
and the characters below U+0020 escaped.
-/

namespace CatalogClient.Json

def escapeChar (c : Char) : List Char :=
  if c = '"' then ['\\', '"']
  else if c = '\\' then ['\\', '\\']
  else if c = '\x08' then ['\\', 'b']
  else if c = '\x0c' then ['\\', 'f']
  else if c = '\n' then ['\\', 'n']
  else if c = '\r' then ['\\', 'r']
  else if c = '\t' then ['\\', 't']
  else if c.toNat < 0x20 then
    ['\\', 'u', '0', '0', Nat.digitChar (c.toNat / 16), Nat.digitChar (c.toNat % 16)]
  else [c]

def writeString (s : String) : List Char :=
  '"' :: s.toList.flatMap escapeChar ++ ['"']

mutual

def write : Json → List Char
  | .null => ['n', 'u', 'l', 'l']
  | .bool true => ['t', 'r', 'u', 'e']
  | .bool false => ['f', 'a', 'l', 's', 'e']
  | .number n => n.write
  | .string s => writeString s
  | .array xs => '[' :: writeItems xs
  | .object ms => '\x7b' :: writeMembers ms

def writeItems : List Json → List Char
  | [] => [']']
  | [x] => write x ++ [']']
  | x :: xs => write x ++ ',' :: writeItems xs

def writeMembers : List (String × Json) → List Char
  | [] => ['\x7d']
  | [(k, x)] => writeString k ++ ':' :: write x ++ ['\x7d']
  | (k, x) :: ms => writeString k ++ ':' :: write x ++ ',' :: writeMembers ms

end

def render (j : Json) : String := String.ofList j.write

end CatalogClient.Json
