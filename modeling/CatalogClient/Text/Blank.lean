/-!
Blank characters (the Unicode property White_Space), trimming by them, ASCII letter case, and
the division of a text into lines.
-/

namespace CatalogClient.Text

/-- The members of White_Space. -/
def isBlank (c : Char) : Bool :=
  let n := c.toNat
  (9 ≤ n && n ≤ 13) || n == 0x20 || n == 0x85 || n == 0xA0 || n == 0x1680 ||
    (0x2000 ≤ n && n ≤ 0x200A) || n == 0x2028 || n == 0x2029 || n == 0x202F || n == 0x205F ||
    n == 0x3000

def trimList (cs : List Char) : List Char :=
  ((cs.dropWhile isBlank).reverse.dropWhile isBlank).reverse

def trim (s : String) : String :=
  String.ofList (trimList s.toList)

@[simp] theorem trimList_nil : trimList [] = [] := rfl

/-- Lower case of the ASCII letters; every other character stays. -/
def lowerAscii (s : String) : String :=
  String.ofList (s.toList.map Char.toLower)

def sameIgnoringCase (a b : String) : Bool :=
  a.toList.map Char.toLower == b.toList.map Char.toLower

theorem toLower_toLower (c : Char) : c.toLower.toLower = c.toLower := by
  by_cases h : c.val ≥ 'A'.val ∧ c.val ≤ 'Z'.val
  · have hval : c.toLower.val = c.val + ('a'.val - 'A'.val) := congrArg Char.val (dif_pos h)
    have hbelow : ¬(c.toLower.val ≥ 'A'.val ∧ c.toLower.val ≤ 'Z'.val) := by
      rw [hval]
      grind
    exact dif_neg hbelow
  · have hsame : c.toLower = c := dif_neg h
    rw [hsame, hsame]

theorem sameIgnoringCase_lowerAscii (a b : String) : sameIgnoringCase (lowerAscii a) b = sameIgnoringCase a b := by
  have hlower : ∀ cs : List Char, (cs.map Char.toLower).map Char.toLower = cs.map Char.toLower := fun cs => by
    rw [List.map_map]
    exact List.map_congr_left fun c _ => toLower_toLower c
  rw [sameIgnoringCase, lowerAscii, String.toList_ofList, hlower, sameIgnoringCase]

/-- The pieces between the occurrences of a separator: one more than there are occurrences. -/
def splitList (sep : Char) : List Char → List (List Char)
  | [] => [[]]
  | c :: cs =>
    if c = sep then [] :: splitList sep cs
    else match splitList sep cs with
      | [] => [[c]]
      | piece :: pieces => (c :: piece) :: pieces

theorem splitList_ne_nil (sep : Char) (cs : List Char) : splitList sep cs ≠ [] := by
  induction cs with
  | nil => simp [splitList]
  | cons c cs ih =>
    simp only [splitList]
    split
    · simp
    · split <;> simp

def split (sep : Char) (s : String) : List String :=
  (splitList sep s.toList).map String.ofList

def cut? (sep : Char) (cs : List Char) : Option (List Char × List Char) :=
  if sep ∈ cs then some (cs.takeWhile (· != sep), (cs.dropWhile (· != sep)).drop 1) else none

def startsWith (start s : String) : Bool :=
  start.toList.isPrefixOf s.toList

def dropTrailing (c : Char) (s : String) : String :=
  String.ofList ((s.toList.reverse.dropWhile (· == c)).reverse)

def dropLeading (c : Char) (s : String) : String :=
  String.ofList (s.toList.dropWhile (· == c))

end CatalogClient.Text
