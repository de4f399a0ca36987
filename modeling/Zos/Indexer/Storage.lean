import Mathlib.Data.List.Infix
import Mathlib.Data.List.Sort
import Zos.Indexer.Queue
import Zos.Lib.Path

/-!
# The storage an indexer reads

The tree below a root, and the accesses of `apps/indexer/src/storage.rs` to it.
Every access goes through `openat2` with `RESOLVE_BENEATH` and
`RESOLVE_NO_SYMLINKS`, so that a path is walked name by name through real
directories and meets an error at the first link. To open a fifo blocks and to
open a socket fails; here both are the error that `open_file` has for a device.

An identity holds what `stat` says of the object; that two open files with the
same device and inode are one file is used in `verifyFileUnchanged`, which looks
at the path only.
-/

namespace Zos.Indexer

open Zos.Lib (segments joinSegments ValidName)

structure FileIdentity where
  device : Nat
  inode : Nat
  size : Nat
  mtimeNs : Int
  ctimeNs : Int
  deriving DecidableEq, Repr

/-! ## Errors -/

deriving instance DecidableEq, Repr for IndexerError

def containsText (text part : String) : Bool := part.toList <:+: text.toList

def toAsciiLowercase (text : String) : String := .ofList (text.toList.map Char.toLower)

def sanitize (message : String) : String :=
  let oneLine := message.toList.map fun c => if c = '\r' ∨ c = '\n' then ' ' else c
  let value := String.ofList (oneLine.take 500)
  if value = "" then "Indexer operation failed" else value

def IndexerError.new (code message : String) (retryable : Bool) : IndexerError :=
  ⟨code, sanitize message, retryable⟩

def IndexerError.storage (message : String) : IndexerError :=
  let lower := toAsciiLowercase message
  if containsText lower "permission denied" then .new "PERMISSION_DENIED" message true
  else if containsText lower "invalid" ∨ containsText lower "symlink" then
    .new "INVALID_PATH" message false
  else .new "STORAGE_UNAVAILABLE" message true

def IndexerError.invalidPath (message : String) : IndexerError :=
  .new "INVALID_PATH" message false

def isMissing (error : IndexerError) : Bool :=
  let lower := toAsciiLowercase error.message
  containsText lower "no such file" || containsText lower "not found"

def stableReason (error : IndexerError) : String :=
  if error.code = "PERMISSION_DENIED" then "permission denied"
  else if error.code = "INVALID_PATH" then "unsafe or symlink path"
  else if error.code = "SOURCE_CHANGED" then error.message
  else if error.code = "SIZE_LIMIT" then "extractor safety limit exceeded"
  else if error.code = "COMMAND_TIMEOUT" then "extractor command timed out"
  else error.message

/-- An error that has nothing to do with where the path leads: of the disk, of
the permissions, of the database. -/
structure Fault where
  error : IndexerError
  present : isMissing error = false

/-- What the walk along a path can answer, as `nix` prints it. -/
inductive Errno where
  | ENOENT
  | ENOTDIR
  | ELOOP
  deriving DecidableEq, Repr

def Errno.message : Errno → String
  | .ENOENT => "ENOENT: No such file or directory"
  | .ENOTDIR => "ENOTDIR: Not a directory"
  | .ELOOP => "ELOOP: Too many symbolic links encountered"

def Errno.error (errno : Errno) : IndexerError := .storage errno.message

/-! ## Trees -/

inductive Node where
  | file (identity : FileIdentity)
  | directory (identity : FileIdentity) (entries : List (String × Node))
  | symlink
  | other

inductive Node.Valid : Node → Prop where
  | file (identity : FileIdentity) : Valid (.file identity)
  | directory (identity : FileIdentity) (entries : List (String × Node))
      (nodup : (entries.map Prod.fst).Nodup) (names : ∀ e ∈ entries, ValidName e.1)
      (children : ∀ e ∈ entries, Valid e.2) :
      Valid (.directory identity entries)
  | symlink : Valid .symlink
  | other : Valid .other

structure Tree where
  root : Node
  valid : root.Valid

/-! ## Accesses -/

/-- Empty segments and `.` stay where they are, which has to be a directory. -/
def Node.walk : Node → List String → Except Errno Node
  | node, [] => .ok node
  | .directory identity entries, segment :: rest =>
      if segment = "" ∨ segment = "." then (Node.directory identity entries).walk rest
      else
        match entries.lookup segment with
        | some node => node.walk rest
        | none => .error .ENOENT
  | .symlink, _ :: _ => .error .ELOOP
  | .file _, _ :: _ | .other, _ :: _ => .error .ENOTDIR

def validateRelativePath (path : String) : Except IndexerError Unit :=
  if path = "" ∨ path.toList.head? = some '/' then
    .error (.invalidPath "Path must be relative to the NAS root")
  else if ".." ∈ segments path then .error (.invalidPath "Path traversal is not allowed")
  else .ok ()

def openBeneath (root : Node) (path : String) : Except IndexerError Node := do
  validateRelativePath path
  match root.walk (segments path) with
  | .ok .symlink => throw Errno.ELOOP.error
  | .ok node => return node
  | .error errno => throw errno.error

def openFile (root : Node) (path : String) : Except IndexerError FileIdentity := do
  match ← openBeneath root path with
  | .file identity => return identity
  | _ => throw (.invalidPath "Index source is not a regular file")

/-- With `O_DIRECTORY`. -/
def openDirectory (root : Node) (path : String) :
    Except IndexerError (List (String × Node)) := do
  match ← openBeneath root path with
  | .directory _ entries => return entries
  | _ => throw Errno.ENOTDIR.error

inductive EntryKind where
  | file
  | directory
  | symlink
  | other
  deriving DecidableEq, Repr

def Node.kind : Node → EntryKind
  | .file _ => .file
  | .directory _ _ => .directory
  | .symlink => .symlink
  | .other => .other

/-- `RootStorage::open`: the root has to be a real directory. -/
def openRoot (root : Node) : Except IndexerError FileIdentity :=
  match root with
  | .directory identity _ => .ok identity
  | _ => .error (.invalidPath "NAS root must be a real directory")

def verifyUnchanged (root : Node) (identity : FileIdentity) : Except IndexerError Unit :=
  match root with
  | .directory now _ =>
      if now = identity then .ok ()
      else .error (.new "SOURCE_CHANGED" "mount identity changed during indexing" true)
  | _ => .error (.new "SOURCE_CHANGED" "mount identity changed during indexing" true)

def verifyFileUnchanged (root : Node) (path : String) (expected : FileIdentity) :
    Except IndexerError Unit := do
  let identity ← openFile root path
  if identity ≠ expected then
    throw (.new "SOURCE_CHANGED" "file changed during indexing" true)

/-! ## Paths of the scanner -/

/-- Names as a normalized path. -/
def pathText (names : List String) : String :=
  if names = [] then "." else joinSegments names

def ignoredDirectories : List String := [".git", ".zos", "node_modules", "dist", "coverage"]

def displayPath (path : String) : String :=
  let value := String.ofList (path.toList.map fun c => if c = '\\' then '/' else c)
  if value = "" then "." else value

/-- The normal components that have been seen, and those to come. -/
def ignoredAncestor.go (seen : List String) : List String → Option String
  | [] => none
  | name :: rest =>
      let prefixed := seen ++ [name]
      if name ∈ ignoredDirectories then some (displayPath (joinSegments prefixed))
      else ignoredAncestor.go prefixed rest

def normalComponents (path : String) : List String :=
  (segments path).filter fun name => name ≠ "" ∧ name ≠ "." ∧ name ≠ ".."

def ignoredAncestor (path : String) : Option String :=
  ignoredAncestor.go [] (normalComponents path)

/-- `directory == Path::new(".")`, which compares components. -/
def isCurDir (path : String) : Bool :=
  (segments path).head? = some "." ∧ (segments path).all fun name => name = "" ∨ name = "."

/-- The path of an entry. `Path::join` puts a slash unless there is one. -/
def joinPath (directory name : String) : String :=
  if isCurDir directory then name
  else if directory.toList.getLast? = some '/' then directory ++ name
  else directory ++ "/" ++ name

end Zos.Indexer
