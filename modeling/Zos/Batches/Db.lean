import Zos.Jobs.Db

/-!
# File batches in the database

`packages/db/src/repositories/file-batches.ts`: a batch, the job it runs
under and its items. A batch is created together with its job, and `job_id`
is unique among the batches, so the two columns of the job that these
functions read and write stand in the batch itself.

A batch is named by its place in the table and an item by its ordinal. Every
function is one transaction.
-/

namespace Zos.Batches

open Zos.Jobs (JobStatus)

inductive ItemStatus where
  | queued
  | running
  | completed
  | failed
  | cancelled
  deriving DecidableEq, Repr

inductive Operation where
  | move
  | trash
  deriving DecidableEq, Repr

structure Item where
  sourcePath : String
  targetPath : Option String
  trashEntryId : Option String
  operationId : String
  status : ItemStatus
  error : Option String
  deriving DecidableEq, Repr

structure Batch where
  rootId : String
  storagePoolId : String
  operation : Operation
  targetDirectory : Option String
  totalCount : Nat
  completedCount : Nat
  successCount : Nat
  failedCount : Nat
  cancelledCount : Nat
  currentSourcePath : Option String
  finishedAt : Option Nat
  /-- `jobs.status` and `jobs.error` of the batch's job. -/
  jobStatus : JobStatus
  jobError : Option String
  items : List Item
  deriving DecidableEq, Repr

abbrev Db := List Batch

/-- `status IN ('queued', 'running')`, of an item. -/
def Item.active (item : Item) : Bool :=
  item.status == .queued || item.status == .running

/-- `j.status IN ('queued', 'running')`. -/
def Batch.active (b : Batch) : Bool :=
  b.jobStatus == .queued || b.jobStatus == .running

/-! ## Creating a batch -/

structure ItemInput where
  sourcePath : String
  targetPath : Option String
  trashEntryId : Option String

structure BatchInput where
  rootId : String
  storagePoolId : String
  operation : Operation
  targetDirectory : Option String
  items : List ItemInput

inductive CreateError where
  | noItems
  /-- `FileBatchConflictError`. -/
  | conflict (sourcePaths : List String)
  /-- `UNIQUE(batch_id, source_path)`. -/
  | constraint
  deriving DecidableEq, Repr

def CreateError.message : CreateError → String
  | .noItems => "File batch must contain at least one item"
  | .conflict _ => "One or more files already have an active batch operation"
  | .constraint =>
      "UNIQUE constraint failed: file_batch_items.batch_id, file_batch_items.source_path"

def duplicateQuery (db : Db) (rootId storagePoolId sourcePath : String) : Option String :=
  if db.any fun b => b.rootId == rootId && b.storagePoolId == storagePoolId &&
      b.active && b.items.any (·.sourcePath == sourcePath) then
    some sourcePath
  else none

/-- The `filter(Boolean)` also drops the empty string. -/
def duplicatePaths (db : Db) (input : BatchInput) : List String :=
  (input.items.filterMap fun item =>
    duplicateQuery db input.rootId input.storagePoolId item.sourcePath).filter (· ≠ "")

/-- `uuid` are the ids drawn for the new rows. -/
def newItem (operation : Operation) (uuid : Nat → String) (input : ItemInput)
    (ordinal : Nat) : Item where
  sourcePath := input.sourcePath
  targetPath := input.targetPath
  trashEntryId := match input.trashEntryId with
    | some id => some id
    | none => if operation = .trash then some (uuid (2 * ordinal)) else none
  operationId := uuid (2 * ordinal + 1)
  status := .queued
  error := none

def newBatch (input : BatchInput) (uuid : Nat → String) : Batch where
  rootId := input.rootId
  storagePoolId := input.storagePoolId
  operation := input.operation
  targetDirectory := input.targetDirectory
  totalCount := input.items.length
  completedCount := 0
  successCount := 0
  failedCount := 0
  cancelledCount := 0
  currentSourcePath := none
  finishedAt := none
  jobStatus := .queued
  jobError := none
  items := input.items.mapIdx fun ordinal item => newItem input.operation uuid item ordinal

def createFileBatch (db : Db) (input : BatchInput) (uuid : Nat → String) :
    Except CreateError Db :=
  if input.items.isEmpty then .error .noItems
  else if !(duplicatePaths db input).isEmpty then
    .error (.conflict (duplicatePaths db input).eraseDups)
  else if ¬ (input.items.map (·.sourcePath)).Nodup then .error .constraint
  else .ok (db ++ [newBatch input uuid])

/-! ## Working through a batch -/

/-- `recoverInterruptedFileBatches`, on one batch. The third statement runs
after the second, so it sees the jobs that were just put back. -/
def Batch.recover (b : Batch) : Batch :=
  let b := if b.jobStatus = .running then
      { b with
        items := b.items.map fun item =>
          if item.status = .running then { item with status := .queued, error := none }
          else item
        jobStatus := .queued }
    else b
  if b.jobStatus = .queued then { b with currentSourcePath := none } else b

def recoverInterruptedFileBatches (db : Db) : Db := db.map Batch.recover

/-- Is this item one `claimNextFileBatchItem` may select? -/
def Batch.claimable (b : Batch) (ordinal : Nat) : Bool :=
  b.active && (b.items[ordinal]?).any (·.status == .queued)

def Batch.claim (b : Batch) (ordinal : Nat) : Batch :=
  { b with
    items := b.items.modify ordinal fun item =>
      { item with status := .running, error := none }
    currentSourcePath := (b.items[ordinal]?).map (·.sourcePath)
    jobStatus := if b.jobStatus = .queued then .running else b.jobStatus
    jobError := if b.jobStatus = .queued then none else b.jobError }

/-- Which of the queued items is claimed depends on `created_at`, that is on
the clock; the caller chooses. -/
def claimNextFileBatchItem (db : Db) (batch ordinal : Nat) : Option Db :=
  if (db[batch]?).any (·.claimable ordinal) then
    some (db.modify batch (·.claim ordinal))
  else none

def Item.finished (item : Item) : Bool :=
  item.status == .completed || item.status == .failed || item.status == .cancelled

def Batch.refreshBatchCounts (b : Batch) : Batch :=
  { b with
    completedCount := b.items.countP (·.finished)
    successCount := b.items.countP (·.status == .completed)
    failedCount := b.items.countP (·.status == .failed)
    cancelledCount := b.items.countP (·.status == .cancelled) }

/-- `SET status = 'cancelled' … WHERE batch_id = ? AND status = 'queued'`. -/
def Batch.cancelQueued (b : Batch) : Batch :=
  { b with
    items := b.items.map fun item =>
      if item.status = .queued then { item with status := .cancelled } else item }

/-- How the runner says an item ended. -/
inductive Outcome where
  | completed
  | failed
  deriving DecidableEq, Repr

def Outcome.status : Outcome → ItemStatus
  | .completed => .completed
  | .failed => .failed

/-- The first statement of `finishFileBatchItem`. -/
def Batch.setOutcome (b : Batch) (ordinal : Nat) (outcome : Outcome)
    (error : Option String) : Batch :=
  { b with
    items := b.items.modify ordinal fun item =>
      if item.status = .running then
        { item with status := outcome.status, error := error }
      else item }

def Batch.finalStatus (b : Batch) : JobStatus :=
  if b.jobStatus = .cancelled then .cancelled
  else if 0 < b.failedCount then .failed
  else .completed

/-- The last part of `finishFileBatchItem`: close the batch when nothing is
left to do. -/
def Batch.closeIfDone (b : Batch) (now : Nat) : Batch × Option JobStatus :=
  if b.items.countP (·.active) = 0 then
    ({ b with
        jobStatus := b.finalStatus
        jobError := if b.finalStatus = .failed then
          some s!"{b.failedCount} of {b.totalCount} file operations failed" else none
        currentSourcePath := none
        finishedAt := some now }, some b.finalStatus)
  else ({ b with currentSourcePath := none }, none)

def Batch.finish (b : Batch) (ordinal : Nat) (outcome : Outcome) (error : Option String)
    (now : Nat) : Batch × Option JobStatus :=
  let b := b.setOutcome ordinal outcome error
  let b := if b.jobStatus = .cancelled then b.cancelQueued else b
  b.refreshBatchCounts.closeIfDone now

/-- Throws when there is no such item. -/
def finishFileBatchItem (db : Db) (batch ordinal : Nat) (outcome : Outcome)
    (error : Option String) (now : Nat) : Option Db :=
  if (db[batch]?).any (ordinal < ·.items.length) then
    some (db.modify batch (·.finish ordinal outcome error now |>.1))
  else none

/-! ## Cancelling -/

/-- `updateJobStatus(db, id, "cancelled", null, ["queued", "running",
"waiting_approval"])` as the cancel route calls it. -/
def Batch.cancelJob (b : Batch) : Option Batch :=
  if Zos.Jobs.allowed [.queued, .running, .waitingApproval] b.jobStatus then
    some { b with jobStatus := .cancelled, jobError := none }
  else none

def Batch.cancelItems (b : Batch) (now : Nat) : Batch :=
  let b := b.cancelQueued.refreshBatchCounts
  if b.items.countP (·.status == .running) = 0 then
    { b with currentSourcePath := none, finishedAt := some (b.finishedAt.getD now) }
  else b

def cancelQueuedFileBatchItems (db : Db) (batch now : Nat) : Db :=
  db.modify batch (·.cancelItems now)

end Zos.Batches
