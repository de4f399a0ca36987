import Zos.Indexer.Spelling
import Zos.Lib.Path

/-!
# Uploads of dropped folders

`apps/web/src/lib/uploads.ts`: the entries of a drop are walked, each directory by answers of its
reader until an empty one comes, and the files that are found make a batch. A path is normalised
three times on its way, when the file is found, when its item is made and when it is joined to the
target folder. Ids, sizes in progress and the status of a batch are left out: no path depends on
them.
-/

namespace Zos.Web.Uploads

open Zos.Indexer.Spelling (Text trim slashes names)
open Zos.Lib (joinText)

inductive Refusal where
  /-- "Upload paths cannot escape the selected folder" -/
  | escapesFolder
  /-- "Upload path is required" -/
  | pathRequired
  /-- "Upload target cannot escape the selected root" -/
  | escapesRoot
  /-- "No files selected for upload" -/
  | noFiles
  deriving DecidableEq, Repr

structure File where
  name : Text
  webkitRelativePath : Text
  size : Nat
  deriving DecidableEq, Repr

/-! ## Paths -/

-- The test for `..` among the segments goes by it.
local instance : LawfulBEq Text := inferInstance

/-- The segments both normalisers keep. -/
def cleanSegments (rawPath : Text) : List Text :=
  (((trim (slashes rawPath)).splitOn '/').map trim).filter fun s => s ≠ [] ∧ s ≠ ['.']

def normalizeUploadRelativePath (rawPath : Text) : Except Refusal Text :=
  let segments := cleanSegments rawPath
  if ['.', '.'] ∈ segments then .error .escapesFolder
  else if segments = [] then .error .pathRequired
  else .ok (joinText segments)

def normalizeNasPath (rawPath : Text) : Except Refusal Text :=
  let normalized := trim (slashes rawPath)
  if normalized = [] ∨ normalized = ['.'] then .ok ['.']
  else
    let segments := cleanSegments rawPath
    if ['.', '.'] ∈ segments then .error .escapesRoot
    else .ok (if segments ≠ [] then joinText segments else ['.'])

def joinNasPath (basePath relativePath : Text) : Except Refusal Text := do
  let normalizedBase ← normalizeNasPath basePath
  let normalizedRelative ← normalizeUploadRelativePath relativePath
  return if normalizedBase = ['.'] then normalizedRelative
    else normalizedBase ++ '/' :: normalizedRelative

/-! ## Sources -/

structure UploadSource where
  file : File
  relativePath : Text
  deriving DecidableEq, Repr

/-- `answers` are what the reader of a directory gives, up to the empty answer at the end. -/
inductive Entry where
  | file (file : File)
  | directory (name : Text) (answers : List (List Entry))
  | other (name : Text)

inductive Item where
  | entry (entry : Entry)
  | file (file : File)
  | nothing

def sourceOf (file : File) (path : Text) : Except Refusal UploadSource := do
  return ⟨file, ← normalizeUploadRelativePath path⟩

def below (root name : Text) : Text := if root ≠ [] then root ++ '/' :: name else name

mutual

def collectUploadSourcesFromEntry : Entry → Text → Except Refusal (List UploadSource)
  | .file file, root => do return [← sourceOf file (below root file.name)]
  | .directory name answers, root => collectFromReader answers (below root name)
  | .other _, _ => .ok []

/-- `Promise.all` over some entries, and `flat`. -/
def collectFromEntries : List Entry → Text → Except Refusal (List UploadSource)
  | [], _ => .ok []
  | entry :: entries, root => do
      return (← collectUploadSourcesFromEntry entry root) ++ (← collectFromEntries entries root)

/-- `readAllDirectoryEntries`, and what the entries give. -/
def collectFromReader : List (List Entry) → Text → Except Refusal (List UploadSource)
  | [], _ => .ok []
  | [] :: _, _ => .ok []
  | (entry :: entries) :: answers, root => do
      return (← collectUploadSourcesFromEntry entry root) ++
        (← collectFromEntries entries root) ++ (← collectFromReader answers root)

end

def getUploadRelativePath (file : File) : Text :=
  if file.webkitRelativePath ≠ [] then file.webkitRelativePath else file.name

def collectUploadSourcesFromFileList (files : List File) : Except Refusal (List UploadSource) :=
  files.mapM fun file => sourceOf file (getUploadRelativePath file)

def collectUploadSourcesFromDataTransferItem : Item → Except Refusal (List UploadSource)
  | .entry entry => collectUploadSourcesFromEntry entry []
  | .file file => do return [← sourceOf file (getUploadRelativePath file)]
  | .nothing => .ok []

def collectUploadSourcesFromDataTransfer (items : List Item) (files : List File) :
    Except Refusal (List UploadSource) := do
  let sources ← items.mapM collectUploadSourcesFromDataTransferItem
  if sources.flatten ≠ [] then return sources.flatten
  collectUploadSourcesFromFileList files

/-! ## Batches -/

structure UploadItem where
  file : File
  name : Text
  relativePath : Text
  targetPath : Text
  deriving DecidableEq, Repr

structure UploadBatch where
  targetPath : Text
  items : List UploadItem
  deriving DecidableEq, Repr

def createUploadItem (targetPath : Text) (source : UploadSource) : Except Refusal UploadItem := do
  let relativePath ← normalizeUploadRelativePath source.relativePath
  return {
    file := source.file
    name := (relativePath.splitOn '/').getLast?.getD source.file.name
    relativePath := relativePath
    targetPath := ← joinNasPath targetPath relativePath }

def createUploadBatch (currentPath : Text) (sources : List UploadSource) :
    Except Refusal UploadBatch := do
  if sources = [] then throw .noFiles
  let targetPath ← normalizeNasPath currentPath
  return ⟨targetPath, ← sources.mapM (createUploadItem targetPath)⟩

/-! ## Dropped trees -/

def Entry.name : Entry → Text
  | .file found => found.name
  | .directory name _ | .other name => name

mutual

/-- The files below an entry, each with its own path. -/
def Entry.files : Entry → List (List Text × File)
  | .file found => [([found.name], found)]
  | .directory name answers => (filesOfAnswers answers).map fun (path, file) => (name :: path, file)
  | .other _ => []

def filesOf : List Entry → List (List Text × File)
  | [] => []
  | entry :: entries => entry.files ++ filesOf entries

def filesOfAnswers : List (List Entry) → List (List Text × File)
  | [] => []
  | answer :: answers => filesOf answer ++ filesOfAnswers answers

end

abbrev ValidName (name : Text) : Prop := Zos.Lib.ValidName (.ofList name)

mutual

def Entry.Valid : Entry → Prop
  | .file found => ValidName found.name
  | .directory name answers =>
      ValidName name ∧ (answers.flatten.map Entry.name).Nodup ∧ ValidAnswers answers
  | .other name => ValidName name

def ValidEntries : List Entry → Prop
  | [] => True
  | entry :: entries => entry.Valid ∧ ValidEntries entries

/-- Only the last answer is empty. -/
def ValidAnswers : List (List Entry) → Prop
  | [] => True
  | answer :: answers => answer ≠ [] ∧ ValidEntries answer ∧ ValidAnswers answers

end

/-- A drop, the list of files the browser gives besides, and the folder it goes to. -/
structure Drop where
  entries : List Entry
  valid : ValidEntries entries
  distinct : (entries.map Entry.name).Nodup
  files : List File
  target : Text

def Drop.upload (drop : Drop) : Except Refusal UploadBatch := do
  createUploadBatch drop.target
    (← collectUploadSourcesFromDataTransfer (drop.entries.map .entry) drop.files)

/-- The batch of the browser's own list, which is asked where the entries give no file. -/
def Drop.fallback (drop : Drop) : Except Refusal UploadBatch := do
  createUploadBatch drop.target (← collectUploadSourcesFromFileList drop.files)

/-- One item for each file, under the target folder and the file's own path, and no two alike. -/
structure Shape (drop : Drop) (batch : UploadBatch) : Prop where
  targets : batch.items.map (fun item => (item.file, item.targetPath.splitOn '/')) =
    (filesOf drop.entries).map fun (path, file) => (file, names drop.target ++ path)
  distinct : (batch.items.map UploadItem.targetPath).Nodup

/-- A refusal is for a segment `..`, unless there is no file at all. -/
def Drop.Kept (drop : Drop) : Prop :=
  match drop.upload with
  | .ok batch => Shape drop batch
  | .error _ => filesOf drop.entries = [] ∨ ['.', '.'] ∈ names drop.target

/-- No backslash, and no blank at an end. -/
def Plain (name : Text) : Prop := '\\' ∉ name ∧ trim name = name

/-- The browser's own list is empty, or a path of it has no segment, or the segment `..` stands in
one or in the folder. -/
def Drop.NothingListed (drop : Drop) : Prop :=
  drop.files = [] ∨ ['.', '.'] ∈ cleanSegments drop.target ∨
    ∃ file ∈ drop.files, cleanSegments (getUploadRelativePath file) = [] ∨
      ['.', '.'] ∈ cleanSegments (getUploadRelativePath file)

def Drop.WellSpelt (drop : Drop) : Prop :=
  if filesOf drop.entries = [] then drop.NothingListed
  else ['.', '.'] ∈ names drop.target ∨
    (∀ name ∈ names drop.target, Plain name) ∧
      ∀ file ∈ filesOf drop.entries, ∀ name ∈ file.1, Plain name

end Zos.Web.Uploads
