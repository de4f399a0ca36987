import Zos.Lib.Js

/-!
# Spellings of a path

The paths of tasks and searches are normalised in three places: `normalizeIndexPath` of
`packages/db/src/repositories/indexer-queue.ts`, `normalizeSearchPath` of
`packages/db/src/repositories/index-search.ts` and `normalize_cli_path` of
`apps/indexer/src/service.rs`. Paths are texts here, and a segment is what stands between two
slashes.
-/

namespace Zos.Indexer.Spelling

open Zos.Lib (trimBy whiteSpace)

abbrev Text := List Char

def trim (value : Text) : Text := trimBy whiteSpace value

/-- `replaceAll("\\", "/")`. -/
def slashes (value : Text) : Text := value.map fun c => if c = '\\' then '/' else c

/-- `replace(/^\.\//u, "")`: once. -/
def stripDot : Text → Text
  | '.' :: '/' :: rest => rest
  | value => value

/-- `replace(/\/+$/u, "")`. -/
def stripSlashes (value : Text) : Text := value.rdropWhile (· == '/')

def tidy (value : Text) : Text := stripSlashes (stripDot (slashes (trim value)))

/-- The two normalisers of the TypeScript side differ in their messages only. -/
def normalizePath (message : String) (value : Text) : Except String Text :=
  let path := tidy value
  if path = [] ∨ path = ['.'] then .ok ['.']
  else if path.head? = some '/' ∨ (path.splitOn '/').any (fun s => s == [] || s == ['.', '.']) then
    .error message
  else .ok path

def normalizeIndexPath : Text → Except String Text :=
  normalizePath "Indexer path must be a normalized relative path"

def normalizeSearchPath : Text → Except String Text :=
  normalizePath "Search path must be a normalized relative path"

/-- The segments that lead on: an empty one and `.` stay where they are. -/
def names (path : Text) : List Text := (path.splitOn '/').filter fun s => s ≠ [] ∧ s ≠ ['.']

/-- The text of some names. -/
def render (path : List Text) : Text := if path = [] then ['.'] else ['/'].intercalate path

/-- `Path::components` keeps `..` and leaves out empty segments; a `.` is passed over. -/
def normalizeCliPath (value : Text) : Except String Text :=
  if value = [] then .error "--path must not be empty"
  else
    let path := slashes value
    if path.head? = some '/' ∨ ['.', '.'] ∈ names path then
      .error "--path must stay inside the selected NAS root"
    else .ok (render (names path))

/-- A relative path that names an entry of a root. -/
structure EntryPath where
  text : Text
  nonempty : text ≠ []
  relative : text.head? ≠ some '/'
  inside : ['.', '.'] ∉ text.splitOn '/'
  noNul : '\x00' ∉ text

end Zos.Indexer.Spelling
