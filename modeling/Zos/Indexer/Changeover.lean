import Zos.Indexer.StaticScan

/-!
# Replacing the text table

After the migration the texts are in `indexed_text`, and the service copies them batch by batch to
`indexed_content_fts` while scans write there, too. The searches of
`packages/db/src/repositories/index-search.ts` read both tables until a scan of the whole root has
come to its end. Every statement of `apps/indexer/src/db.rs` below is one transaction, so that a
crash lies between two steps. What MATCH finds is a predicate on the body of a row.
-/

namespace Zos.Indexer.Changeover

open StaticScan (ContentStatus setStatus)

/-- A row of `indexed_text`. -/
structure LegacyRow extends ContentRow where
  rowid : Int
  deriving DecidableEq, Repr

structure State where
  index : Index
  legacy : List LegacyRow
  status : String → ContentStatus
  legacyCursor : String → Int
  /-- The generations of scans that have recorded an error. -/
  failed : List Nat

/-! ## Statements -/

/-- The next rows that `copy_legacy_batch` reads, joined with `indexed_files`. -/
def State.batch (s : State) (rootId : String) (batchSize : Nat) : List LegacyRow :=
  ((s.legacy.filter fun row => row.rootId = rootId ∧ s.legacyCursor rootId < row.rowid ∧
      s.index.files.any fun file => file.id = row.fileId ∧ file.rootId = row.rootId).mergeSort
    fun a b => a.rowid ≤ b.rowid).take batchSize

def copyRow (content : List ContentRow) (row : ContentRow) : List ContentRow :=
  if content.any (·.fileId = row.fileId) then content else content ++ [row]

def State.copyLegacyBatch (s : State) (rootId : String) (batchSize : Nat) : State :=
  match s.status rootId with
  | .rebuilding | .ready => s
  | _ =>
    let rows := s.batch rootId batchSize
    let last := (rows.getLast?.map (·.rowid)).getD (s.legacyCursor rootId)
    { s with
      index := { s.index with
        content := (rows.map (·.toContentRow)).foldl copyRow s.index.content }
      status := setStatus s.status rootId
        (if rows.length < batchSize then .rebuilding else .copying)
      legacyCursor := fun other => if other = rootId then last else s.legacyCursor other }

/-- The generation is drawn before. -/
def State.beginGeneration (s : State) (rootId : String) (rootRebuild : Bool) : State :=
  { s with
    index := { s.index with nextId := s.index.nextId + 1 }
    status :=
      if rootRebuild ∧ s.status rootId ≠ .ready then setStatus s.status rootId .rebuilding
      else s.status }

def State.cleanupGeneration (s : State) (rootId path : String) (generation : Nat)
    (rootRebuild : Bool) : State :=
  { s with
    index := (Indexer.cleanupGeneration s.index rootId path generation).2
    status := if rootRebuild then setStatus s.status rootId .ready else s.status }

inductive Action where
  | copyLegacyBatch (rootId : String) (batchSize : Nat)
  | beginGeneration (rootId : String) (rootRebuild : Bool)
  | publishFile (record : IndexedFileRecord) (extracted : ExtractedFile)
  | recordExtractionError (record : IndexedFileRecord) (error : IndexerError)
  | touchGeneration (rootId path : String) (generation : Nat)
  | removePath (rootId path : String) (recursive : Bool)
  | cleanupGeneration (rootId path : String) (generation : Nat) (rootRebuild : Bool)

/-- Rows are written under generations that have been drawn. -/
def State.drawn (s : State) (generation : Option Nat) : Prop :=
  ∀ g ∈ generation, g < s.index.nextId

instance {s : State} {generation : Option Nat} : Decidable (s.drawn generation) :=
  inferInstanceAs (Decidable (∀ _ ∈ generation, _))

def step (s : State) : Action → Option State
  | .copyLegacyBatch rootId batchSize => some (s.copyLegacyBatch rootId batchSize)
  | .beginGeneration rootId rootRebuild => some (s.beginGeneration rootId rootRebuild)
  | .publishFile record extracted =>
    if s.drawn record.scanGeneration then
      some { s with index := publishFile s.index record extracted }
    else none
  | .recordExtractionError record error =>
    if s.drawn record.scanGeneration then
      some { s with
        index := recordExtractionError s.index record error
        failed := s.failed ++ record.scanGeneration.toList }
    else none
  | .touchGeneration rootId path generation =>
    if s.drawn (some generation) then
      some { s with index := touchGeneration s.index rootId path generation }
    else none
  | .removePath rootId path recursive =>
    some { s with index := (removePath s.index rootId path recursive).2 }
  | .cleanupGeneration rootId path generation rootRebuild =>
    some (s.cleanupGeneration rootId path generation rootRebuild)

/-- After the migration, with any rows in the old table. -/
structure Init (s : State) : Prop where
  valid : s.index.Valid
  content : s.index.content = []
  generations : ∀ file ∈ s.index.files, file.scanGeneration = none
  /-- New ids are not those of old texts. -/
  known : ∀ text ∈ s.legacy, text.fileId < s.index.nextId
  status : ∀ rootId, s.status rootId = .legacy

/-- As `run_task` goes: it gives the generation of the scan to files that have a text, and it
cleans a whole root up only if no file has failed. -/
def AsScanned (s : State) : Action → Prop
  | .touchGeneration rootId path _ =>
    ∀ file ∈ s.index.files, file.isAt rootId path → s.index.hasContent file.id = true
  | .cleanupGeneration _ path generation rootRebuild =>
    rootRebuild = true → path = "." ∧ generation ∉ s.failed
  | _ => True

structure Reached extends State where
  reached : Zos.Lib.Reach step Zos.Lib.anyStep Init toState

/-! ## Searches -/

def State.contentOf (s : State) (rootId : String) : List ContentRow :=
  s.index.content.filter (·.rootId = rootId)

/-- The old texts of a root that no new one stands for. -/
def State.left (s : State) (rootId : String) : List ContentRow :=
  (s.legacy.map (·.toContentRow)).filter fun text =>
    text.rootId = rootId ∧ text.fileId ∉ (s.contentOf rootId).map (·.fileId)

/-- The rows that `matches` is taken from. -/
def State.searched (s : State) (rootId : String) : List ContentRow :=
  s.contentOf rootId ++ if s.status rootId = .ready then [] else s.left rootId

/-- `queryIndexedText` without its limit: the ids of its rows. The join is a left one. -/
def queryIndexedText (s : State) (rootId : String) (found : String → Bool) (path : String) :
    List Nat :=
  ((s.searched rootId).filter fun text =>
    found text.body ∧ atOrBelow path text.path).map (·.fileId)

/-- `queryIndexAdvanced` with a query, before order and limit. -/
def queryIndexAdvanced (s : State) (rootId : String) (found : String → Bool)
    (accepts : FileRow → Bool) : List Nat :=
  (s.index.files.filter fun file => file.rootId = rootId ∧ accepts file).flatMap fun file =>
    ((s.searched rootId).filter fun text => found text.body ∧ text.fileId = file.id).map
      (·.fileId)

/-! ## What they are to return -/

/-- The newest stored text of a file: a row of the new table, else of the old one. -/
def State.newest (s : State) (file : FileRow) : List ContentRow :=
  match s.index.content.filter (·.fileId = file.id) with
  | [] => (s.legacy.map (·.toContentRow)).filter fun text =>
      text.fileId = file.id ∧ text.rootId = file.rootId
  | texts => texts

/-- The indexed files of the root that are asked for and whose newest text is found, once each. -/
def State.Shows (s : State) (rootId : String) (found : String → Bool) (asked : FileRow → Prop)
    (ids : List Nat) : Prop :=
  ids.Nodup ∧ ∀ id, id ∈ ids ↔ ∃ file ∈ s.index.files, file.id = id ∧ file.rootId = rootId ∧
    asked file ∧ ∃ text ∈ s.newest file, found text.body = true

structure State.SearchedRight (s : State) (rootId : String) : Prop where
  text : ∀ found path, s.Shows rootId found (fun file => atOrBelow path file.path)
    (queryIndexedText s rootId found path)
  advanced : ∀ found accepts, s.Shows rootId found (fun file => accepts file = true)
    (queryIndexAdvanced s rootId found accepts)

/-- The row belongs to an indexed file of the root, whose path it has. -/
def State.Indexed (s : State) (rootId : String) (text : ContentRow) : Prop :=
  ∃ file ∈ s.index.files,
    file.id = text.fileId ∧ file.rootId = rootId ∧ file.path = text.path

/-- There is a new text of the file, or there is no old one. -/
def State.Covered (s : State) (file : FileRow) : Prop :=
  s.index.hasContent file.id = true ∨
    ∀ text ∈ s.legacy, ¬ (text.fileId = file.id ∧ text.rootId = file.rootId)

structure State.Settled (s : State) (rootId : String) : Prop where
  copied : ∀ text ∈ s.contentOf rootId, s.Indexed rootId text
  ready : s.status rootId = .ready →
    ∀ file ∈ s.index.files, file.rootId = rootId → s.Covered file
  left : s.status rootId ≠ .ready →
    ((s.left rootId).map (·.fileId)).Nodup ∧ ∀ text ∈ s.left rootId, s.Indexed rootId text

end Zos.Indexer.Changeover
