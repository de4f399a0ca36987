import Mathlib.Algebra.GroupWithZero.Nat
import Mathlib.Logic.Function.Basic

/-!
# The download tables

Everything the database holds for one download task is an `Entry`: its row of
`download_tasks`, its segments, its space reservation and its publish journal.
Each function on entries is one transaction of `apps/downloader/src/db.rs` or
of `packages/db/src/repositories/downloads.ts`, and answers `none` where the
source reports that no row was changed.

Ids, workers and paths are numbers, and instants are numbers of milliseconds.
A task id is used once: `nextId` counts the ids given out, and the columns
that are written with the row and never again are functions of the id.
-/

namespace Zos.Downloader

inductive Status where
  | queued
  | running
  | paused
  | completed
  | failed
  | cancelled
  deriving DecidableEq, Repr

inductive Control where
  | pause
  | cancel
  deriving DecidableEq, Repr

inductive Phase where
  | probing
  | downloading
  | verifying
  | publishing
  | retryWait
  deriving DecidableEq, Repr

inductive Mode where
  | single
  | segmented
  deriving DecidableEq, Repr

inductive ErrorCode where
  | dns
  | ssrfBlocked
  | connect
  | timeout
  | tls
  | httpStatus
  | redirectPolicy
  | rangeProtocol
  | sourceChanged
  | sizeLimit
  | diskSpace
  | storage
  | targetConflict
  | checksumMismatch
  | permission
  | database
  | internal
  deriving DecidableEq, Repr

structure DownloadError where
  code : ErrorCode
  message : String
  retryable : Bool
  deriving DecidableEq, Repr

/-- The ids of `file_operations` rows that the downloader writes. -/
inductive OperationId where
  | download (taskId : Nat)
  deriving DecidableEq, Repr

structure Task where
  status : Status
  receivedBytes : Nat
  totalBytes : Option Nat
  speedBytesPerSecond : Nat
  etag : Option String
  lastModified : Option String
  workerId : Option Nat
  leaseExpiresAt : Option Nat
  phase : Option Phase
  downloadMode : Option Mode
  expectedSha256 : Option String
  actualSha256 : Option String
  error : Option String
  errorCode : Option ErrorCode
  errorRetryable : Bool
  retryCount : Nat
  nextRetryAt : Option Nat
  controlRequested : Option Control
  segmentCount : Nat
  fileOperationId : Option OperationId
  createdAt : Nat
  startedAt : Option Nat
  finishedAt : Option Nat
  deriving DecidableEq, Repr

/-- Bytes `start` to `stop`, of which those below `next` have arrived. -/
structure Segment where
  start : Nat
  stop : Nat
  next : Nat
  deriving DecidableEq, Repr

structure SegmentCheckpoint where
  start : Nat
  next : Nat
  total : Nat
  speedBytesPerSecond : Nat
  deriving DecidableEq, Repr

structure FileIdentity where
  device : Nat
  inode : Nat
  size : Nat
  deriving DecidableEq, Repr

structure PublishJournal where
  taskId : Nat
  operationId : OperationId
  workerId : Nat
  device : Nat
  inode : Nat
  sizeBytes : Nat
  sha256 : Option String
  deriving DecidableEq, Repr

def PublishJournal.identity (journal : PublishJournal) : FileIdentity where
  device := journal.device
  inode := journal.inode
  size := journal.sizeBytes

structure Progress where
  receivedBytes : Nat
  totalBytes : Option Nat
  speedBytesPerSecond : Nat
  etag : Option String
  lastModified : Option String
  phase : Phase
  mode : Mode
  segmentCount : Nat
  deriving DecidableEq, Repr

structure Entry where
  task : Option Task
  segments : List Segment
  reservation : Option Nat
  journal : Option PublishJournal
  deriving DecidableEq, Repr

def Entry.empty : Entry where
  task := none
  segments := []
  reservation := none
  journal := none

/-- `LEASE`. -/
def lease : Nat := 30000

/-! ## Fences -/

/-- `WHERE status = 'running' AND worker_id = ?`. -/
def Entry.held (e : Entry) (workerId : Nat) : Option Task :=
  e.task.filter fun task =>
    task.status = .running ∧ task.workerId = some workerId

/-- `WHERE status = 'running' AND worker_id = ? AND control_requested IS NULL`. -/
def Entry.owned (e : Entry) (workerId : Nat) : Option Task :=
  e.task.filter fun task =>
    task.status = .running ∧ task.workerId = some workerId ∧
      task.controlRequested = none

/-- `lease_expires_at IS NULL OR lease_expires_at <= ?`. -/
def leaseOver (now : Nat) : Option Nat → Bool
  | none => true
  | some expiresAt => expiresAt ≤ now

/-- The task runs under a lease that has not run out. -/
def Task.live (now : Nat) (task : Task) : Bool :=
  task.status = .running ∧ leaseOver now task.leaseExpiresAt = false

/-! ## The owner's statements -/

def extendLease (now workerId : Nat) (e : Entry) : Option Entry :=
  (e.owned workerId).map fun task =>
    { e with task := some { task with leaseExpiresAt := some (now + lease) } }

def progress (now workerId : Nat) (p : Progress) (e : Entry) : Option Entry :=
  (e.owned workerId).map fun task =>
    { e with
      task := some { task with
        receivedBytes := p.receivedBytes
        totalBytes := p.totalBytes
        speedBytesPerSecond := p.speedBytesPerSecond
        etag := p.etag <|> task.etag
        lastModified := p.lastModified <|> task.lastModified
        phase := some p.phase
        downloadMode := some p.mode
        segmentCount := p.segmentCount
        leaseExpiresAt := some (now + lease) } }

def renewPhase (now workerId : Nat) (phase : Phase) (e : Entry) : Option Entry :=
  (e.owned workerId).map fun task =>
    { e with
      task := some { task with
        phase := some phase
        leaseExpiresAt := some (now + lease) } }

def resetTransfer (workerId : Nat) (e : Entry) : Option Entry :=
  (e.owned workerId).map fun task =>
    { e with
      task := some { task with
        receivedBytes := 0
        totalBytes := none
        speedBytesPerSecond := 0
        etag := none
        lastModified := none
        actualSha256 := none
        downloadMode := none
        segmentCount := 0
        phase := some .probing }
      segments := []
      reservation := none }

def setActualChecksum (workerId : Nat) (checksum : String) (e : Entry) :
    Option Entry :=
  (e.owned workerId).map fun task =>
    { e with
      task := some { task with
        phase := some .verifying
        actualSha256 := some checksum } }

def replaceSegments (workerId : Nat) (segments : List Segment) (e : Entry) :
    Option Entry :=
  (e.owned workerId).map fun _ => { e with segments := segments }

def Segment.checkpoint (c : SegmentCheckpoint) (segment : Segment) : Segment :=
  if segment.start = c.start then { segment with next := c.next } else segment

/-- `SUM(next_byte - start_byte)`. -/
def receivedOf (segments : List Segment) : Nat :=
  (segments.map fun segment => segment.next - segment.start).sum

def checkpointSegment (now workerId : Nat) (c : SegmentCheckpoint) (e : Entry) :
    Option Entry :=
  (e.owned workerId).map fun task =>
    let segments := e.segments.map (·.checkpoint c)
    { e with
      task := some { task with
        receivedBytes := receivedOf segments
        totalBytes := some c.total
        speedBytesPerSecond := c.speedBytesPerSecond
        phase := some .downloading
        downloadMode := some .segmented
        leaseExpiresAt := some (now + lease) }
      segments := segments
      reservation := e.reservation.map fun _ => c.total - receivedOf segments }

/-- `other` is what the other tasks of the pool have reserved. -/
def reserveSpace (workerId required available minimumFree other : Nat)
    (e : Entry) : Option Entry :=
  if required + minimumFree + other > available then none
  else (e.owned workerId).map fun _ => { e with reservation := some required }

def beginPublish (journal : PublishJournal) (e : Entry) : Option Entry :=
  (e.owned journal.workerId).map fun task =>
    { e with
      task := some { task with
        phase := some .publishing
        actualSha256 := journal.sha256 }
      journal := some journal }

/-! ## Leaving `running` -/

/-- `CASE control_requested WHEN 'pause' THEN 'paused' WHEN 'cancel' THEN
'cancelled' ELSE 'queued' END`. -/
def statusForControl : Option Control → Status
  | some .pause => .paused
  | some .cancel => .cancelled
  | none => .queued

/-- The `SET` list of `recover_expired`, `recover_unpublished` and
`requeue_owned`. -/
def Task.release (now : Nat) (task : Task) : Task :=
  { task with
    status := statusForControl task.controlRequested
    workerId := none
    leaseExpiresAt := none
    speedBytesPerSecond := 0
    phase := none
    controlRequested := none
    finishedAt :=
      if task.controlRequested = some .cancel then some now else none }

def finishControl (now workerId : Nat) (cancelled : Bool) (e : Entry) :
    Option Entry :=
  (e.held workerId).map fun task =>
    { e with
      task := some { task with
        status := if cancelled then .cancelled else .paused
        phase := none
        controlRequested := none
        workerId := none
        leaseExpiresAt := none
        speedBytesPerSecond := 0
        finishedAt := if cancelled then some now else none }
      reservation := none }

/-- `retryDelay` is set only when the error is to be retried. -/
def failOrRetry (now workerId retryCount : Nat) (error : DownloadError)
    (maxAutoRetries : Nat) (retryDelay : Option Nat) (e : Entry) : Option Entry :=
  let retry := error.retryable && decide (retryCount < maxAutoRetries) &&
    retryDelay.isSome
  (e.held workerId).map fun task =>
    { e with
      task := some { task with
        status := if retry then .queued else .failed
        phase := if retry then some .retryWait else none
        error := some error.message
        errorCode := some error.code
        errorRetryable := error.retryable
        retryCount := if retry then task.retryCount + 1 else task.retryCount
        nextRetryAt := retryDelay.map (now + ·)
        workerId := none
        leaseExpiresAt := none
        speedBytesPerSecond := 0
        controlRequested := none
        finishedAt := if retry then none else some now }
      reservation := none }

/-- Of any status but a live `running`, `completed` included. -/
def recoverUnpublished (now : Nat) (e : Entry) : Option Entry :=
  (e.task.filter fun task => task.live now = false).map fun task =>
    { e with task := some (task.release now), journal := none }

def failRecovery (now : Nat) (code : ErrorCode) (message : String) (e : Entry) :
    Entry :=
  { e with
    task := e.task.map fun task =>
      { task with
        status := .failed
        phase := none
        error := some message
        errorCode := some code
        errorRetryable := false
        workerId := none
        leaseExpiresAt := none
        finishedAt := some now }
    reservation := none
    journal := none }

def PublishJournal.matches (journal row : PublishJournal) : Bool :=
  row.taskId = journal.taskId ∧ row.operationId = journal.operationId ∧
    row.workerId = journal.workerId ∧ row.identity = journal.identity

/-- The task's part of `finalize_publish`, for a journal that matches. -/
def completePublish (now : Nat) (journal : PublishJournal) (e : Entry) : Entry where
  task := e.task.map fun task =>
    { task with
      status := .completed
      receivedBytes := journal.sizeBytes
      totalBytes := some journal.sizeBytes
      speedBytesPerSecond := 0
      workerId := none
      leaseExpiresAt := none
      error := none
      errorCode := none
      errorRetryable := false
      phase := none
      controlRequested := none
      nextRetryAt := none
      actualSha256 := journal.sha256
      finishedAt := some now
      fileOperationId := some journal.operationId }
  segments := []
  reservation := none
  journal := none

/-! ## Statements over all tasks -/

def recoverExpired (now : Nat) (e : Entry) : Entry :=
  match e.task with
  | none => e
  | some task =>
      if task.status = .running then
        if leaseOver now task.leaseExpiresAt ∧ e.journal = none then
          { e with task := some (task.release now), reservation := none }
        else e
      else { e with reservation := none }

def requeueOwned (now workerId : Nat) (e : Entry) : Entry :=
  match e.held workerId with
  | some task => { e with task := some (task.release now), reservation := none }
  | none =>
      if (e.task.bind (·.workerId)) = none then { e with reservation := none }
      else e

/-! ## Claiming -/

def claimable (now : Nat) (e : Entry) : Option Task :=
  e.task.filter fun task =>
    task.status = .queued ∧ task.nextRetryAt.all (· ≤ now) ∧ e.journal = none

def claim (now workerId : Nat) (e : Entry) : Option Entry :=
  (claimable now e).map fun task =>
    { e with
      task := some { task with
        status := .running
        workerId := some workerId
        leaseExpiresAt := some (now + lease)
        startedAt := task.startedAt <|> some now
        finishedAt := none
        error := none
        errorCode := none
        errorRetryable := false
        phase := some .probing
        nextRetryAt := none
        controlRequested := none } }

/-- `ORDER BY COALESCE(next_retry_at, created_at), created_at`. -/
def Task.before (a b : Task) : Bool :=
  let k := a.nextRetryAt.getD a.createdAt
  let l := b.nextRetryAt.getD b.createdAt
  k < l || (k == l && a.createdAt < b.createdAt)

/-! ## The API's statements -/

def requestDownloadTaskControl (request : Control) (e : Entry) : Option Entry :=
  (e.task.filter fun task => task.status = .running).map fun task =>
    { e with
      task := some { task with
        controlRequested :=
          if task.controlRequested = some .cancel then some .cancel
          else some request } }

/-- The routes pass no error. -/
def transitionDownloadTask (now : Nat) (sources : List Status) (toStatus : Status)
    (reset : Bool) (e : Entry) : Option Entry :=
  (e.task.filter fun task => task.status ∈ sources).map fun task =>
    { e with
      task := some { task with
        status := toStatus
        error := none
        errorCode := none
        errorRetryable := false
        workerId := none
        leaseExpiresAt := none
        speedBytesPerSecond := 0
        receivedBytes := if reset then 0 else task.receivedBytes
        totalBytes := if reset then none else task.totalBytes
        etag := if reset then none else task.etag
        lastModified := if reset then none else task.lastModified
        actualSha256 := if reset then none else task.actualSha256
        phase := none
        downloadMode := if reset then none else task.downloadMode
        segmentCount := if reset then 0 else task.segmentCount
        retryCount := if reset then 0 else task.retryCount
        nextRetryAt := none
        controlRequested := none
        finishedAt :=
          if toStatus = .completed ∨ toStatus = .failed ∨ toStatus = .cancelled then some now
          else none }
      segments := if reset then [] else e.segments
      reservation := if reset then none else e.reservation }

/-- The segments, the reservation and the journal go with the row: their
foreign keys cascade. -/
def deleteDownloadTask (e : Entry) : Option Entry :=
  (e.task.filter fun task => task.status ≠ .running).map fun _ => Entry.empty

def createDownloadTask (now : Nat) (expectedSha256 : Option String) : Entry :=
  { Entry.empty with
    task := some
      { status := .queued
        receivedBytes := 0
        totalBytes := none
        speedBytesPerSecond := 0
        etag := none
        lastModified := none
        workerId := none
        leaseExpiresAt := none
        phase := none
        downloadMode := none
        expectedSha256 := expectedSha256
        actualSha256 := none
        error := none
        errorCode := none
        errorRetryable := false
        retryCount := 0
        nextRetryAt := none
        controlRequested := none
        segmentCount := 0
        fileOperationId := none
        createdAt := now
        startedAt := none
        finishedAt := none } }

/-! ## The database -/

structure FileOperation where
  id : OperationId
  targetPath : Nat
  sizeBytes : Nat
  sha256 : Option String
  downloadMode : Mode
  deriving DecidableEq, Repr

structure Db where
  nextId : Nat
  /-- `root_id`, `storage_pool_id` and `target_path` as one key. -/
  targetPath : Nat → Nat
  storagePool : Nat → Nat
  entry : Nat → Entry
  fileOperations : List FileOperation

def Db.empty (targetPath storagePool : Nat → Nat) : Db where
  nextId := 0
  targetPath := targetPath
  storagePool := storagePool
  entry _ := .empty
  fileOperations := []

def Db.setEntry (db : Db) (taskId : Nat) (e : Entry) : Db :=
  { db with entry := Function.update db.entry taskId e }

/-- One task's transaction. -/
def Db.modify (db : Db) (taskId : Nat) (f : Entry → Option Entry) : Option Db :=
  (f (db.entry taskId)).map (db.setEntry taskId)

/-- What the other tasks of the same pool have reserved. -/
def Db.otherReservations (db : Db) (taskId : Nat) : Nat :=
  ((List.range db.nextId).map fun t =>
    if t ≠ taskId ∧ db.storagePool t = db.storagePool taskId then
      (db.entry t).reservation.getD 0
    else 0).sum

/-- No claimable task comes before this one. -/
def Db.isNext (db : Db) (now taskId : Nat) : Bool :=
  (List.range db.nextId).all fun t =>
    match claimable now (db.entry t), (db.entry taskId).task with
    | some other, some task => !other.before task
    | _, _ => true

/-- `INSERT OR IGNORE INTO file_operations`. -/
def insertOrIgnore (operation : FileOperation) (operations : List FileOperation) :
    List FileOperation :=
  if operations.any (·.id = operation.id) then operations
  else operations ++ [operation]

def finalizePublish (now : Nat) (journal : PublishJournal) (mode : Mode) (db : Db) :
    Option Db :=
  let e := db.entry journal.taskId
  if e.journal.any journal.matches then
    some { db.setEntry journal.taskId (completePublish now journal e) with
      fileOperations := insertOrIgnore
        { id := journal.operationId
          targetPath := db.targetPath journal.taskId
          sizeBytes := journal.sizeBytes
          sha256 := journal.sha256
          downloadMode := mode }
        db.fileOperations }
  else if e.task.any fun task =>
      task.status = .completed ∧ task.fileOperationId = some journal.operationId then
    some db
  else none

/-- The statements of `run_task` on its own task. -/
inductive OwnerStatement where
  | extendLease
  | progress (p : Progress)
  | renewPhase (phase : Phase)
  | resetTransfer
  | setActualChecksum (checksum : String)
  | replaceSegments (segments : List Segment)
  | checkpointSegment (c : SegmentCheckpoint)
  | reserveSpace (required available minimumFree : Nat)
  deriving DecidableEq, Repr

def OwnerStatement.exec (now workerId other : Nat) (e : Entry) :
    OwnerStatement → Option Entry
  | .extendLease => Downloader.extendLease now workerId e
  | .progress p => Downloader.progress now workerId p e
  | .renewPhase phase => Downloader.renewPhase now workerId phase e
  | .resetTransfer => Downloader.resetTransfer workerId e
  | .setActualChecksum checksum =>
      Downloader.setActualChecksum workerId checksum e
  | .replaceSegments segments => Downloader.replaceSegments workerId segments e
  | .checkpointSegment c => Downloader.checkpointSegment now workerId c e
  | .reserveSpace required available minimumFree =>
      Downloader.reserveSpace workerId required available minimumFree other e

/-- The transactions of the downloader and of the download routes. -/
inductive Statement where
  | claim (workerId taskId : Nat)
  | owner (workerId taskId : Nat) (st : OwnerStatement)
  | beginPublish (journal : PublishJournal)
  | finalizePublish (journal : PublishJournal) (mode : Mode)
  | finishControl (workerId taskId : Nat) (cancelled : Bool)
  | failOrRetry (workerId taskId retryCount : Nat) (error : DownloadError)
      (maxAutoRetries : Nat) (retryDelay : Option Nat)
  | recoverUnpublished (taskId : Nat)
  | failRecovery (taskId : Nat) (code : ErrorCode) (message : String)
  | recoverExpired
  | requeueOwned (workerId : Nat)
  | requestDownloadTaskControl (taskId : Nat) (request : Control)
  | transitionDownloadTask (taskId : Nat) (sources : List Status) (toStatus : Status)
      (reset : Bool)
  | deleteDownloadTask (taskId : Nat)
  | createDownloadTask (expectedSha256 : Option String)
  deriving DecidableEq, Repr

/-- `none` where the source answers that nothing was changed. -/
def Statement.exec (now : Nat) (db : Db) : Statement → Option Db
  | .claim workerId taskId =>
      if db.isNext now taskId then
        db.modify taskId (Downloader.claim now workerId)
      else none
  | .owner workerId taskId st =>
      db.modify taskId fun e =>
        st.exec now workerId (db.otherReservations taskId) e
  | .beginPublish journal =>
      db.modify journal.taskId (Downloader.beginPublish journal)
  | .finalizePublish journal mode =>
      Downloader.finalizePublish now journal mode db
  | .finishControl workerId taskId cancelled =>
      db.modify taskId (Downloader.finishControl now workerId cancelled)
  | .failOrRetry workerId taskId retryCount error maxAutoRetries retryDelay =>
      db.modify taskId
        (Downloader.failOrRetry now workerId retryCount error maxAutoRetries
          retryDelay)
  | .recoverUnpublished taskId =>
      db.modify taskId (Downloader.recoverUnpublished now)
  | .failRecovery taskId code message =>
      db.modify taskId fun e => some (Downloader.failRecovery now code message e)
  | .recoverExpired =>
      some { db with entry := fun t => Downloader.recoverExpired now (db.entry t) }
  | .requeueOwned workerId =>
      some { db with
        entry := fun t => Downloader.requeueOwned now workerId (db.entry t) }
  | .requestDownloadTaskControl taskId request =>
      db.modify taskId (Downloader.requestDownloadTaskControl request)
  | .transitionDownloadTask taskId sources toStatus reset =>
      db.modify taskId (Downloader.transitionDownloadTask now sources toStatus reset)
  | .deleteDownloadTask taskId => db.modify taskId Downloader.deleteDownloadTask
  | .createDownloadTask expectedSha256 =>
      -- `UNIQUE(root_id, storage_pool_id, target_path)`
      if (List.range db.nextId).all fun t =>
          (db.entry t).task = none ∨
            db.targetPath t ≠ db.targetPath db.nextId then
        some { db.setEntry db.nextId (Downloader.createDownloadTask now expectedSha256) with
          nextId := db.nextId + 1 }
      else none

end Zos.Downloader
