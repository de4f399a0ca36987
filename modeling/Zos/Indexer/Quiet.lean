import Zos.Indexer.Index

/-!
# Tasks that nothing disturbs

`run_task` of `apps/indexer/src/scanner.rs` while the tree and the mount stay as they are, the
database answers and nobody stops the indexer. The order in which files come to their end then
makes no difference, and a task is a function of the rows of its root. Paths are taken apart into
their names.
-/

namespace Zos.Indexer.Quiet

open Zos.Lib (joinSegments)

/-- The rows of one root: for each path that has one, what its text was extracted from, if it has
text. -/
def Rows := String → Option (Option FileIdentity)

def Rows.put (rows : Rows) (path : String) (identity : FileIdentity) : Rows :=
  fun other => if other = path then some (some identity) else rows other

/-- The rows whose paths are kept. -/
def Rows.keep (rows : Rows) (kept : String → Bool) : Rows :=
  fun path => if kept path then rows path else none

/-- The path a file is recorded under. -/
def display (names : List String) : String := displayPath (joinSegments names)

/-- A file that is as it was is left alone; another one has to be extracted. -/
def processFile (root : Node) (extracts : FileIdentity → Bool) (rows : Rows) (path : String) :
    Option Rows :=
  match openFile root path with
  | .error _ => none
  | .ok identity =>
      if rows path = some (some identity) then some rows
      else if extracts identity then some (rows.put path identity)
      else none

mutual

/-- The regular files that the traversal of a directory comes to. -/
def filesOf (recursive : Bool) : List (String × Node) → List (List String)
  | [] => []
  | (name, node) :: rest => filesAt recursive node name ++ filesOf recursive rest

def filesAt (recursive : Bool) : Node → String → List (List String)
  | .file _, name => [[name]]
  | .directory _ entries, name =>
      if name ∈ ignoredDirectories ∨ ¬ recursive then []
      else (filesOf recursive entries).map (name :: ·)
  | .symlink, _ | .other, _ => []

end

/-- `none` when the task fails. -/
def runTask (root : Node) (extracts : FileIdentity → Bool) (rows : Rows) (names : List String)
    (recursive : Bool) : Option Rows :=
  match ignoredAncestor.go [] names, root.walk names with
  | some ignored, _ => some (rows.keep fun path => ¬ atOrBelow ignored path)
  | none, .ok (.directory _ entries) =>
      let paths := (filesOf recursive entries).map fun file => display (names ++ file)
      (paths.foldlM (processFile root extracts) rows).map fun rows =>
        if recursive then rows.keep fun path => path ∈ paths ∨ ¬ atOrBelow (pathText names) path
        else rows
  | none, .ok (.file _) => processFile root extracts rows (pathText names)
  | none, .error .ENOENT =>
      some (rows.keep fun path =>
        if recursive then ¬ atOrBelow (pathText names) path else path ≠ pathText names)
  | none, _ => none

end Zos.Indexer.Quiet
