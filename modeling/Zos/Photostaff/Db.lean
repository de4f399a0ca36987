import Zos.Lib.Js

/-!
# The tables of the photo service

Jobs, scan entries, assets and publish journals, and the statements that
`apps/photostaff/src/db.rs` and `packages/db/src/repositories/photostaff.ts`
make on them. A statement that returns an error has changed nothing and is
`none` here.

An asset is named by root, storage pool and path, its `Location`; the metadata
row of an asset only matters through its schema version. Times are
milliseconds, ids are numbers, and any clock value may come with any statement.
Where a query takes the first row of an order, the row is a choice of the
caller.
-/

namespace Zos.Photostaff

open Zos.Lib (trim)

/-! ## Rows -/

structure FileIdentity where
  device : Nat
  inode : Nat
  size : Nat
  mtimeNs : Int
  ctimeNs : Int
  deriving DecidableEq, Repr

inductive Purpose where
  | thumbnail
  | preview
  deriving DecidableEq, Repr

/-- `{purpose}/{digest}.webp`. -/
structure Key where
  purpose : Purpose
  digest : Nat
  deriving DecidableEq, Repr

structure Location where
  rootId : String
  storagePoolId : String
  path : String
  deriving DecidableEq, Repr

structure LibrarySettings where
  rootId : String
  storagePoolId : String
  path : String
  updatedAt : Nat
  deriving DecidableEq, Repr

inductive JobKind where
  | fullScan
  | pathRefresh
  deriving DecidableEq, Repr

inductive JobStatus where
  | queued
  | running
  | retrying
  | completed
  | failed
  deriving DecidableEq, Repr

structure Job where
  id : Nat
  kind : JobKind
  rootId : String
  storagePoolId : String
  path : String
  libraryUpdatedAt : Nat
  scanGeneration : Nat
  deriving DecidableEq, Repr

def Job.locate (job : Job) (path : String) : Location :=
  ⟨job.rootId, job.storagePoolId, path⟩

structure JobRow extends Job where
  status : JobStatus
  workerId : Option Nat
  leaseExpiresAt : Option Nat
  nextRetryAt : Option Nat
  createdAt : Nat
  deriving DecidableEq, Repr

inductive EntryType where
  | directory
  | media
  | sidecar
  deriving DecidableEq, Repr

inductive EntryStatus where
  | pending
  | processing
  | completed
  | failed
  | skipped
  deriving DecidableEq, Repr

structure ScanEntry where
  jobId : Nat
  path : String
  entryType : EntryType
  status : EntryStatus
  errorRetryable : Bool
  nextRetryAt : Option Nat
  deriving DecidableEq, Repr

inductive AssetStatus where
  | ready
  | failed
  deriving DecidableEq, Repr

structure Asset where
  location : Location
  status : AssetStatus
  thumbnailKey : Option Key
  previewKey : Option Key
  source : Option FileIdentity
  sidecar : Option (String × FileIdentity)
  derivativeSchemaVersion : Nat
  /-- `schema_version` of the row's metadata, when it has some. -/
  metadataSchemaVersion : Option Nat
  scanGeneration : Option Nat
  libraryUpdatedAt : Nat
  deriving DecidableEq, Repr

/-- A derivative that `process_media` made: the key it is to be published
under, and the id and the identity of its temporary file. -/
structure Derivative where
  key : Key
  temp : Nat
  identity : FileIdentity
  deriving DecidableEq, Repr

structure PublishRecord where
  operationId : Nat
  jobId : Nat
  location : Location
  libraryUpdatedAt : Nat
  scanGeneration : Nat
  source : FileIdentity
  sidecar : Option (String × FileIdentity)
  thumbnail : Derivative
  preview : Derivative
  deriving DecidableEq, Repr

def PublishRecord.derivative (record : PublishRecord) : Purpose → Derivative
  | .thumbnail => record.thumbnail
  | .preview => record.preview

structure Db where
  library : Option LibrarySettings
  jobs : List JobRow
  entries : List ScanEntry
  assets : List Asset
  journals : List PublishRecord
  deriving DecidableEq, Repr

def Db.empty : Db := ⟨none, [], [], [], []⟩

/-! ## Jobs -/

def JobStatus.ended : JobStatus → Bool
  | .queued | .running | .retrying => false
  | .completed | .failed => true

def JobRow.expired (row : JobRow) (now : Nat) : Bool := row.leaseExpiresAt.all (· ≤ now)

def ensureJobOwned (db : Db) (jobId worker now : Nat) : Bool :=
  db.jobs.any fun row => row.id = jobId ∧ row.status = .running ∧
    row.workerId = some worker ∧ ¬ row.expired now

def jobRecoverable (db : Db) (jobId now : Nat) : Bool :=
  db.jobs.any fun row => row.id = jobId ∧ (row.status ≠ .running ∨ row.expired now)

def Db.updateJobs (db : Db) (f : JobRow → JobRow) : Db := { db with jobs := db.jobs.map f }

def Db.updateEntries (db : Db) (f : ScanEntry → ScanEntry) : Db :=
  { db with entries := db.entries.map f }

/-- `UPDATE photostaff_scan_entries … WHERE job_id = ? AND path = ?`. -/
def Db.updateEntry (db : Db) (jobId : Nat) (path : String) (f : ScanEntry → ScanEntry) : Db :=
  db.updateEntries fun entry => if entry.jobId = jobId ∧ entry.path = path then f entry else entry

/-- The `processing` entries of some jobs are `pending` again. -/
def Db.requeueEntries (db : Db) (ofJob : Nat → Bool) : Db :=
  db.updateEntries fun entry =>
    if ofJob entry.jobId ∧ entry.status = .processing then { entry with status := .pending }
    else entry

def insertJob (db : Db) (settings : LibrarySettings) (kind : JobKind) (path : String)
    (id now : Nat) : Db :=
  { db with
    jobs := db.jobs ++ [{
      id := id
      kind := kind
      rootId := settings.rootId
      storagePoolId := settings.storagePoolId
      path := path
      libraryUpdatedAt := settings.updatedAt
      scanGeneration := id
      status := .queued
      workerId := none
      leaseExpiresAt := none
      nextRetryAt := none
      createdAt := now }] }

def ensurePeriodicJob (db : Db) (settings : LibrarySettings) (interval id now : Nat) : Db :=
  if db.jobs.any fun row => row.libraryUpdatedAt = settings.updatedAt ∧ ¬ row.status.ended then
    db
  else if db.jobs.any fun row => row.libraryUpdatedAt = settings.updatedAt ∧
      row.kind = .fullScan ∧ now < row.createdAt + interval then db
  else insertJob db settings .fullScan settings.path id now

/-- The `enqueuePhotostaffJob` of the API, which does not count a retrying job. -/
def enqueuePhotostaffJob (db : Db) (settings : LibrarySettings) (kind : JobKind)
    (path : String) (queueAfterRunning : Bool) (id now : Nat) : Db :=
  if db.jobs.any fun row => row.libraryUpdatedAt = settings.updatedAt ∧ row.kind = kind ∧
      row.path = path ∧
      (row.status = .queued ∨ (¬ queueAfterRunning ∧ row.status = .running)) then db
  else insertJob db settings kind path id now

/-- A library that is really another one loses its assets and ends its jobs. -/
def savePhotostaffLibrarySettings (db : Db) (rootId storagePoolId path : String) (now : Nat) :
    Option Db :=
  let settings : LibrarySettings := {
    rootId := trim rootId
    storagePoolId := trim storagePoolId
    path := trim path
    updatedAt := (db.library.map fun existing => max now (existing.updatedAt + 1)).getD now }
  if db.library.any fun existing => existing.rootId = settings.rootId ∧
      existing.storagePoolId = settings.storagePoolId ∧ existing.path = settings.path then
    some db
  else if settings.rootId = "" ∨ settings.storagePoolId = "" ∨ settings.path = "" then none
  else
    some { db with
      library := some settings
      assets := []
      jobs := db.jobs.map fun row =>
        if row.status.ended then row
        else { row with status := .failed, workerId := none, leaseExpiresAt := none } }

def JobRow.requeueExpired (row : JobRow) (now : Nat) : JobRow :=
  if row.status = .running ∧ row.expired now then
    { row with status := .queued, workerId := none, leaseExpiresAt := none }
  else row

def JobRow.claimable (row : JobRow) (now : Nat) : Bool :=
  row.status = .queued ∨ (row.status = .retrying ∧ row.nextRetryAt.any (· ≤ now))

def JobRow.claim (row : JobRow) (worker now : Nat) : JobRow :=
  { row with
    status := .running
    workerId := some worker
    leaseExpiresAt := some (now + 30000)
    nextRetryAt := none }

/-- `choice` is the job that is taken, if there is one to take. -/
def claimJob (db : Db) (worker : Nat) (choice : Option Nat) (now : Nat) :
    Option (Option Job × Db) :=
  let db := db.updateJobs (·.requeueExpired now)
  match choice with
  | none => if db.jobs.any (·.claimable now) then none else some (none, db)
  | some id => do
      let row ← db.jobs.find? fun row => row.id = id ∧ row.claimable now
      let db := db.updateJobs fun row => if row.id = id then row.claim worker now else row
      return (some row.toJob, db.requeueEntries (· = id))

def renewLease (db : Db) (jobId worker now : Nat) : Db :=
  db.updateJobs fun row =>
    if row.id = jobId ∧ row.status = .running ∧ row.workerId = some worker then
      { row with leaseExpiresAt := some (now + 30000) }
    else row

/-- Nothing is asked about the status here. -/
def retryOrFailJob (db : Db) (job : Job) (worker : Nat) (nextRetryAt : Option Nat) : Db :=
  db.updateJobs fun row =>
    if row.id = job.id ∧ row.workerId = some worker then
      { row with
        status := if nextRetryAt.isSome then .retrying else .failed
        nextRetryAt := nextRetryAt
        workerId := none
        leaseExpiresAt := none }
    else row

def releaseWorker (db : Db) (worker : Nat) : Db :=
  let owns (jobId : Nat) : Bool :=
    db.jobs.any fun row => row.id = jobId ∧ row.workerId = some worker
  (db.requeueEntries owns).updateJobs fun row =>
    if row.status = .running ∧ row.workerId = some worker then
      { row with status := .queued, workerId := none, leaseExpiresAt := none }
    else row

def finishJob (db : Db) (job : Job) (worker now : Nat) : Option Db :=
  if ensureJobOwned db job.id worker now ∧ ¬ db.entries.any fun entry =>
      entry.jobId = job.id ∧ (entry.status = .pending ∨ entry.status = .processing) then
    some { db with
      assets := if job.kind = .fullScan then
          db.assets.filter fun asset => ¬ (asset.libraryUpdatedAt = job.libraryUpdatedAt ∧
            asset.scanGeneration ≠ some job.scanGeneration)
        else db.assets
      jobs := db.jobs.map fun row =>
        if row.id = job.id ∧ row.workerId = some worker ∧ row.status = .running then
          { row with
            status := .completed
            workerId := none
            leaseExpiresAt := none
            nextRetryAt := none }
        else row }
  else none

/-! ## Entries -/

/-- `INSERT … ON CONFLICT(job_id,path) DO NOTHING`. -/
def Db.insertEntry (db : Db) (jobId : Nat) (path : String) (entryType : EntryType) : Db :=
  if db.entries.any fun entry => entry.jobId = jobId ∧ entry.path = path then db
  else
    { db with
      entries := db.entries ++ [{
        jobId := jobId
        path := path
        entryType := entryType
        status := if entryType = .sidecar then .completed else .pending
        errorRetryable := false
        nextRetryAt := none }] }

def addScanEntry (db : Db) (jobId : Nat) (path : String) (entryType : EntryType)
    (worker now : Nat) : Option Db :=
  if ensureJobOwned db jobId worker now then some (db.insertEntry jobId path entryType)
  else none

/-- The directory of the job is the first entry. -/
def initializeScan (db : Db) (job : Job) (worker now : Nat) : Option Db :=
  addScanEntry db job.id job.path .directory worker now

def ScanEntry.claimable (entry : ScanEntry) (now : Nat) : Bool :=
  entry.status = .pending ∨
    (entry.status = .failed ∧ entry.errorRetryable ∧ entry.nextRetryAt.any (· ≤ now))

def claimEntry (db : Db) (jobId : Nat) (entryType : EntryType) (path : String)
    (worker now : Nat) : Option Db :=
  if ensureJobOwned db jobId worker now ∧ db.entries.any fun entry =>
      entry.jobId = jobId ∧ entry.entryType = entryType ∧ entry.path = path ∧
        entry.claimable now then
    some (db.updateEntry jobId path ({ · with status := .processing }))
  else none

def ScanEntry.complete (entry : ScanEntry) : ScanEntry :=
  { entry with status := .completed, errorRetryable := false, nextRetryAt := none }

def completeEntry (db : Db) (jobId : Nat) (path : String) (worker now : Nat) : Option Db :=
  if ensureJobOwned db jobId worker now then
    some (db.updateEntry jobId path ScanEntry.complete)
  else none

def skipEntry (db : Db) (jobId : Nat) (path : String) (worker now : Nat) : Option Db :=
  if ensureJobOwned db jobId worker now then
    some (db.updateEntry jobId path ({ · with status := .skipped }))
  else none

def failEntry (db : Db) (jobId : Nat) (path : String) (nextRetryAt : Option Nat)
    (worker now : Nat) : Option Db :=
  if ensureJobOwned db jobId worker now then
    some (db.updateEntry jobId path ({ · with
      status := .failed
      errorRetryable := nextRetryAt.isSome
      nextRetryAt := nextRetryAt }))
  else none

/-! ## Assets and journals -/

/-- `INSERT … ON CONFLICT(root_id,storage_pool_id,path) DO UPDATE`. -/
def Db.upsertAsset (db : Db) (inserted : Asset) (update : Asset → Asset) : Db :=
  { db with
    assets := if db.assets.any (·.location = inserted.location) then
        db.assets.map fun asset =>
          if asset.location = inserted.location then update asset else asset
      else db.assets ++ [inserted] }

/-- The row is ready and was made of the very files that are there now. -/
def Asset.unchanged (asset : Asset) (source : FileIdentity)
    (sidecar : Option (String × FileIdentity)) : Bool :=
  asset.status = .ready ∧ asset.source = some source ∧ asset.derivativeSchemaVersion = 1 ∧
    asset.metadataSchemaVersion = some 2 ∧ asset.sidecar = sidecar

/-- Only the generation is written: the row stays in the library it is of. -/
def markCurrentIfUnchanged (db : Db) (job : Job) (path : String) (source : FileIdentity)
    (sidecar : Option (String × FileIdentity)) (worker now : Nat) : Option (Bool × Db) :=
  if ensureJobOwned db job.id worker now then
    if db.assets.any fun asset =>
        asset.location = job.locate path ∧ asset.unchanged source sidecar then
      some (true, { db with
        assets := db.assets.map fun asset =>
          if asset.location = job.locate path then
            { asset with scanGeneration := some job.scanGeneration }
          else asset })
    else some (false, db)
  else none

def recordFailedAsset (db : Db) (job : Job) (path : String) (source : FileIdentity)
    (worker now : Nat) : Option Db :=
  if ensureJobOwned db job.id worker now then
    some (db.upsertAsset
      { location := job.locate path
        status := .failed
        thumbnailKey := none
        previewKey := none
        source := some source
        sidecar := none
        derivativeSchemaVersion := 1
        metadataSchemaVersion := none
        scanGeneration := some job.scanGeneration
        libraryUpdatedAt := job.libraryUpdatedAt }
      ({ · with
        status := .failed
        source := some source
        scanGeneration := some job.scanGeneration
        libraryUpdatedAt := job.libraryUpdatedAt }))
  else none

def PublishRecord.asset (record : PublishRecord) : Asset where
  location := record.location
  status := .ready
  thumbnailKey := some record.thumbnail.key
  previewKey := some record.preview.key
  source := some record.source
  sidecar := record.sidecar
  derivativeSchemaVersion := 1
  metadataSchemaVersion := some 2
  scanGeneration := some record.scanGeneration
  libraryUpdatedAt := record.libraryUpdatedAt

def Db.hasJournal (db : Db) (operationId : Nat) : Bool :=
  db.journals.any (·.operationId = operationId)

def Db.deleteJournal (db : Db) (operationId : Nat) : Db :=
  { db with journals := db.journals.filter (·.operationId ≠ operationId) }

def beginPublish (db : Db) (record : PublishRecord) (worker now : Nat) : Option Db :=
  if ensureJobOwned db record.jobId worker now ∧ ¬ db.journals.any fun journal =>
      journal.jobId = record.jobId ∧ journal.location.path = record.location.path then
    some { db with
      journals := if db.hasJournal record.operationId then
          db.journals.map fun journal =>
            if journal.operationId = record.operationId then record else journal
        else db.journals ++ [record] }
  else none

/-- With a worker the job has to be its own; without one it has to be a job
that nobody runs. -/
def mayPublish (db : Db) (jobId : Nat) (worker : Option Nat) (now : Nat) : Bool :=
  match worker with
  | some worker => ensureJobOwned db jobId worker now
  | none => jobRecoverable db jobId now

/-- `complete_publish_transaction`: nothing happens when the journal is gone. The row of the job
also counts the photo, whatever its status; its counters are not among the columns here. -/
def completePublish (db : Db) (record : PublishRecord) (worker : Option Nat) (now : Nat) :
    Option (Bool × Db) :=
  if ¬ db.hasJournal record.operationId then some (false, db)
  else if mayPublish db record.jobId worker now then
    some (true, (((db.upsertAsset record.asset fun _ => record.asset).updateEntry record.jobId
      record.location.path ScanEntry.complete).deleteJournal record.operationId))
  else none

/-- `abort_journal_for_worker`. A journal whose job is run by somebody is left
alone; losing one's own job on the way is an error. -/
def abortJournal (db : Db) (operationId : Nat) (requeue : Bool) (worker : Option Nat)
    (now : Nat) : Option Db :=
  match db.journals.find? (·.operationId = operationId) with
  | none => some db
  | some journal =>
      if mayPublish db journal.jobId worker now then
        let db := if requeue then
            db.updateEntry journal.jobId journal.location.path ({ · with status := .pending })
          else db
        some (db.deleteJournal operationId)
      else if worker.isSome then none
      else some db

end Zos.Photostaff
