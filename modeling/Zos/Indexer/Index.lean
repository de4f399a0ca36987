import Zos.Indexer.Storage

/-!
# The index

`indexed_files` has one row for each path of a root, and `indexed_content_fts`
the texts, by the id of the file. The columns that nothing here reads are left
out. `nextId` is the source of ids and of scan generations, which stands for
UUIDs that do not repeat.
-/

namespace Zos.Indexer

inductive ExtractionStatus where
  | pending
  | ready
  | stale
  | error
  | skipped
  deriving DecidableEq, Repr

structure FileRow where
  id : Nat
  rootId : String
  storagePoolId : Option String
  path : String
  identity : Option FileIdentity
  scanGeneration : Option Nat
  extractionStatus : ExtractionStatus
  extractionError : Option String
  deriving DecidableEq, Repr

structure ContentRow where
  fileId : Nat
  rootId : String
  path : String
  body : String
  deriving DecidableEq, Repr

structure Index where
  files : List FileRow
  content : List ContentRow
  nextId : Nat
  deriving DecidableEq, Repr

def FileRow.isAt (row : FileRow) (rootId path : String) : Prop :=
  row.rootId = rootId ∧ row.path = path

instance {row : FileRow} {rootId path : String} : Decidable (row.isAt rootId path) :=
  inferInstanceAs (Decidable (_ ∧ _))

def Index.find (index : Index) (rootId path : String) : Option FileRow :=
  index.files.find? (·.isAt rootId path)

/-- `EXISTS(SELECT 1 FROM indexed_content_fts WHERE file_id = ?)`. -/
def Index.hasContent (index : Index) (id : Nat) : Bool := index.content.any (·.fileId = id)

structure ExistingFile where
  id : Nat
  identity : Option FileIdentity
  hasContent : Bool
  deriving DecidableEq, Repr

def existingFile (index : Index) (rootId path : String) : Option ExistingFile :=
  (index.find rootId path).map fun row => ⟨row.id, row.identity, index.hasContent row.id⟩

/-- The values of a row that a scan writes. -/
structure IndexedFileRecord where
  rootId : String
  storagePoolId : Option String
  path : String
  identity : FileIdentity
  scanGeneration : Option Nat
  deriving DecidableEq, Repr

structure ExtractedFile where
  status : ExtractionStatus
  body : String
  deriving DecidableEq, Repr

/-- A new row of a record. -/
def IndexedFileRecord.row (record : IndexedFileRecord) (id : Nat) (status : ExtractionStatus)
    (error : Option String) : FileRow :=
  ⟨id, record.rootId, record.storagePoolId, record.path, some record.identity,
    record.scanGeneration, status, error⟩

/-- What a record writes over a row: NULLs leave the pool and the generation. -/
def FileRow.put (row : FileRow) (record : IndexedFileRecord) (status : ExtractionStatus)
    (error : Option String) : FileRow :=
  { row with
    storagePoolId := record.storagePoolId.or row.storagePoolId
    identity := some record.identity
    scanGeneration := record.scanGeneration.or row.scanGeneration
    extractionStatus := status
    extractionError := error }

/-- `INSERT … ON CONFLICT(root_id, path) DO UPDATE`. -/
def Index.upsertFile (index : Index) (record : IndexedFileRecord) (status : ExtractionStatus)
    (error : Option String) : Index :=
  match index.find record.rootId record.path with
  | some _ =>
      { index with
        files := index.files.map fun row =>
          if row.isAt record.rootId record.path then row.put record status error else row }
  | none =>
      { index with
        files := index.files ++ [record.row index.nextId status error]
        nextId := index.nextId + 1 }

def publishFile (index : Index) (record : IndexedFileRecord) (extracted : ExtractedFile) : Index :=
  let id := ((index.find record.rootId record.path).map (·.id)).getD index.nextId
  let index := index.upsertFile record extracted.status none
  { index with
    content := (index.content.filter (·.fileId ≠ id)) ++
      [⟨id, record.rootId, record.path, extracted.body⟩] }

def recordExtractionError (index : Index) (record : IndexedFileRecord) (error : IndexerError) :
    Index :=
  let stale := (index.find record.rootId record.path).any fun row => index.hasContent row.id
  index.upsertFile record (if stale then .stale else .error) (some error.message)

def touchGeneration (index : Index) (rootId path : String) (generation : Nat) : Index :=
  { index with
    files := index.files.map fun row =>
      if row.isAt rootId path then { row with scanGeneration := some generation } else row }

/-- `? = '.' OR path = ? OR substr(path, 1, length(?) + 1) = ? || '/'`. -/
def atOrBelow (path rowPath : String) : Prop :=
  path = "." ∨ rowPath = path ∨
    rowPath.toList.take (path.length + 1) = path.toList ++ ['/']

instance {path rowPath : String} : Decidable (atOrBelow path rowPath) :=
  inferInstanceAs (Decidable (_ ∨ _ ∨ _))

def selectedIds (index : Index) (rootId path : String) (recursive : Bool)
    (generationToExclude : Option Nat) : List Nat :=
  (index.files.filter fun row =>
    match generationToExclude with
    | some generation =>
        row.rootId = rootId ∧ atOrBelow path row.path ∧ row.scanGeneration ≠ some generation
    | none =>
        if recursive then row.rootId = rootId ∧ atOrBelow path row.path
        else row.isAt rootId path).map (·.id)

def deleteIds (index : Index) (ids : List Nat) : Index :=
  { index with
    files := index.files.filter (·.id ∉ ids)
    content := index.content.filter (·.fileId ∉ ids) }

def removePath (index : Index) (rootId path : String) (recursive : Bool) : Nat × Index :=
  let ids := selectedIds index rootId path recursive none
  (ids.length, deleteIds index ids)

def cleanupGeneration (index : Index) (rootId path : String) (generation : Nat) : Nat × Index :=
  let ids := selectedIds index rootId path true (some generation)
  (ids.length, deleteIds index ids)

/-- What the schema and the source of ids see to. -/
structure Index.Valid (index : Index) : Prop where
  paths : (index.files.map fun row => (row.rootId, row.path)).Nodup
  ids : (index.files.map (·.id)).Nodup
  idBound : ∀ row ∈ index.files, row.id < index.nextId
  generationBound : ∀ row ∈ index.files, ∀ g, row.scanGeneration = some g → g < index.nextId

end Zos.Indexer
