import Zos.Lib.NodePath

/-!
# Paths inside a NAS root

`packages/nas-tools/src/path-safety.ts`. The path of a root is absolute and given by its names.
-/

namespace Zos.NasTools

open Zos.Lib Zos.Lib.Posix

variable {File : Type}

inductive MutationError where
  /-- `PathSafetyError`. -/
  | safety (message : String)
  | failure (message : String)
  | io (errno : Errno)
  deriving DecidableEq, Repr

def isPathInside (rootPath candidatePath : Location) : Bool :=
  let relative := NodePath.relative rootPath candidatePath
  relative = "" || (relative.toList.take 2 ≠ ['.', '.'] && !isAbsolute relative)

/-- Of the approvals route. -/
def isPathWithin (parentPath candidatePath : Location) : Bool :=
  let relativePath := NodePath.relative parentPath candidatePath
  relativePath = "" || (relativePath ≠ ".." && relativePath.toList.take 3 ≠ ['.', '.', '/'] &&
    !isAbsolute relativePath)

def toRootRelative (rootPath candidatePath : Location) : String :=
  let relative := NodePath.relative rootPath candidatePath
  if relative = "" then "." else relative

structure SafePath where
  rootRealPath : Location
  absolutePath : Location
  realPath : Location
  relativePath : String
  deriving DecidableEq, Repr

def resolveSafeExistingPath (fs : FileSystem File) (rootPath : List String)
    (requestedPath : String) : Except MutationError SafePath := do
  if isAbsolute requestedPath then
    .error (.safety "Absolute paths are not allowed inside a NAS root")
  else
    let rootRealPath ← (fs.realpath rootPath).mapError .io
    let absolutePath := NodePath.resolve rootRealPath requestedPath
    let realPath ← (fs.realpath absolutePath).mapError .io
    if !isPathInside rootRealPath realPath then
      .error (.safety "Path escapes the configured NAS root")
    else
      return {
        rootRealPath := rootRealPath
        absolutePath := absolutePath
        realPath := realPath
        relativePath := toRootRelative rootRealPath realPath }

end Zos.NasTools
