import Mathlib.Data.List.Infix
import Zos.Lib.Fallible
import Zos.Lib.Path

/-!
# A file system with symbolic links

Entries by location, that is by the names from the root directory down. A path is
resolved name by name; a link is followed from the directory it stands in, and a path
may lead through forty of them. Above an entry there are directories only.
-/

namespace Zos.Lib.Posix

variable {File : Type}

/-! ## Locations and trees -/

abbrev Location := List String

inductive Node (File : Type) where
  | directory
  | file (data : File)
  | link (target : String)
  | special
  deriving DecidableEq, Repr

inductive Errno where
  | noEntry
  | notDirectory
  | isDirectory
  | notEmpty
  | loop
  | exists
  | invalid
  deriving DecidableEq, Repr

/-- What stands at a name, or nothing at all. -/
structure Tree (File : Type) where
  entry : Location → Option (Node File)
  closed : ∀ loc name, entry (loc ++ [name]) ≠ none →
    entry loc = some .directory ∧ ValidName name

structure FileSystem (File : Type) extends Tree File where
  root : entry [] = some .directory

/-! ## Resolving a path -/

def isAbsolute (path : String) : Bool := path.toList.head? = some '/'

/-- From a directory, name by name; `follow` goes on at a link. -/
def FileSystem.walkWith (fs : FileSystem File)
    (follow : Location → List String → Except Errno Location) :
    Location → List String → Except Errno Location
  | cur, [] => .ok cur
  | cur, name :: rest =>
      if name = "" ∨ name = "." then fs.walkWith follow cur rest
      else if name = ".." then fs.walkWith follow cur.dropLast rest
      else
        match fs.entry (cur ++ [name]) with
        | none => .error .noEntry
        | some .directory => fs.walkWith follow (cur ++ [name]) rest
        | some (.link target) =>
            follow (if isAbsolute target then [] else cur) (segments target ++ rest)
        | some (.file _) | some .special =>
            if rest = [] then .ok (cur ++ [name]) else .error .notDirectory

/-- `links` of them may be followed. -/
def FileSystem.walk (fs : FileSystem File) :
    Nat → Location → List String → Except Errno Location
  | 0 => fs.walkWith fun _ _ => .error .loop
  | links + 1 => fs.walkWith (fs.walk links)

def FileSystem.realpath (fs : FileSystem File) (path : List String) : Except Errno Location :=
  fs.walk 40 [] path

end Zos.Lib.Posix
