import CatalogClient.Text.Blank
/-!
The files below a working directory, and the paths that lead to them.
-/

namespace CatalogClient

inductive FileEntry
  | file (data : List UInt8)
  | directory
  deriving DecidableEq, Repr

/-- Files and directories by the names of the directories that lead to them and their own; the
directories on the way to an entry are entries too. -/
structure FileTree where
  entries : List (List String × FileEntry)
  deriving DecidableEq, Repr

namespace FilePath

def parts (path : String) : List String := Text.split '/' path

/-- The parts that lead anywhere: an empty part and a single dot do not. -/
def isStep (part : String) : Bool := part ≠ "" && part ≠ "."

def filename? (path : String) : Option String :=
  match ((parts path).filter isStep).getLast? with
  | some ".." => none
  | name => name

/-- What stands behind the last dot of the file's name, unless nothing stands before it. -/
def extension? (path : String) : Option String :=
  (filename? path).bind fun name =>
    match Text.cut? '.' name.toList.reverse with
    | some (_, []) => none
    | some (extension, _) => some (String.ofList extension.reverse)
    | none => none

end FilePath

namespace FileTree

def empty : FileTree := ⟨[]⟩

/-- A later entry takes the place of an earlier one with its name. -/
def insert (t : FileTree) (name : String) (entry : FileEntry) : FileTree :=
  ⟨((FilePath.parts name).filter FilePath.isStep, entry) :: t.entries⟩

def entry? (t : FileTree) (names : List String) : Option FileEntry :=
  match t.entries.find? (·.1 = names) with
  | some (_, entry) => some entry
  | none => if t.entries.any (names.isPrefixOf ·.1) ∨ names = [] then some .directory else none

/-- Follows the parts of a path from a directory. Nothing is known above the working directory but
that there are directories. -/
def follow (t : FileTree) : List String → List String → Option FileEntry
  | here, [] => t.entry? here
  | here, part :: rest =>
    match t.entry? here with
    | some .directory =>
      if part = "" ∨ part = "." then follow t here rest
      else if part = ".." then
        if here = [] then (if rest.any FilePath.isStep then none else some .directory)
        else follow t here.dropLast rest
      else follow t (here ++ [part]) rest
    | _ => none

def find? (t : FileTree) (path : String) : Option FileEntry :=
  if path = "" ∨ Text.startsWith "/" path then none else t.follow [] (FilePath.parts path)

end FileTree

end CatalogClient
