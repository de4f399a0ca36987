import Zos.Indexer.Spelling
import Zos.Lib.Reach

/-!
# The index queue

`index_queue` holds one row for each path of a root that has to be looked at
again. Three programs write it: the indexer (`apps/indexer/src/db.rs`), the
API through `enqueueIndexTask` and the downloader in `finalize_publish`. Each
of them inserts with `ON CONFLICT(root_id, path) DO UPDATE`; the two upserts
differ in what they keep of the old row.

Ids are drawn one after the other, which stands for UUIDs that do not repeat;
the downloader's id is the operation id of a publish journal, and a journal is
finalized once. Times are milliseconds and any clock value may come with any
statement.
-/

namespace Zos.Indexer

inductive Kind where
  | full
  | incremental
  | manual
  deriving DecidableEq, Repr

inductive QueueStatus where
  | queued
  | running
  | retrying
  | failed
  deriving DecidableEq, Repr

structure QueueRow where
  id : Nat
  rootId : String
  storagePoolId : Option String
  path : String
  recursive : Bool
  kind : Kind
  generation : Nat
  priority : Int
  status : QueueStatus
  retryCount : Nat
  nextRetryAt : Option Nat
  workerId : Option Nat
  leaseExpiresAt : Option Nat
  error : Option String
  errorCode : Option String
  createdAt : Nat
  updatedAt : Nat
  startedAt : Option Nat
  finishedAt : Option Nat
  deriving DecidableEq, Repr

/-- The values of an insert: `excluded` in the upserts. -/
structure Enqueued where
  id : Nat
  rootId : String
  storagePoolId : Option String
  path : String
  recursive : Bool
  kind : Kind
  priority : Int
  now : Nat

def Enqueued.row (e : Enqueued) : QueueRow where
  id := e.id
  rootId := e.rootId
  storagePoolId := e.storagePoolId
  path := e.path
  recursive := e.recursive
  kind := e.kind
  generation := 1
  priority := e.priority
  status := .queued
  retryCount := 0
  nextRetryAt := none
  workerId := none
  leaseExpiresAt := none
  error := none
  errorCode := none
  createdAt := e.now
  updatedAt := e.now
  startedAt := none
  finishedAt := none

/-- What both upserts do to a row that is there. -/
def QueueRow.requeue (row : QueueRow) (now : Nat) : QueueRow :=
  { row with
    generation := row.generation + 1
    status := .queued
    retryCount := 0
    nextRetryAt := none
    workerId := none
    leaseExpiresAt := none
    error := none
    errorCode := none
    updatedAt := now
    finishedAt := none }

/-- The update of `enqueue` and of `enqueueIndexTask`. -/
def QueueRow.mergeTask (row : QueueRow) (e : Enqueued) : QueueRow :=
  { row.requeue e.now with
    storagePoolId := e.storagePoolId.or row.storagePoolId
    recursive := row.recursive || e.recursive
    kind := if e.kind = .manual then .manual
      else if row.kind = .manual then row.kind
      else if e.kind = .full then .full
      else row.kind
    priority := max row.priority e.priority }

/-- The update of `finalize_publish`, which keeps `recursive` and `kind` and
takes the new pool even when it is NULL. -/
def QueueRow.mergeDownload (row : QueueRow) (e : Enqueued) : QueueRow :=
  { row.requeue e.now with
    storagePoolId := e.storagePoolId
    priority := max row.priority 50 }

def upsert (merge : QueueRow → Enqueued → QueueRow) (rows : List QueueRow) (e : Enqueued) :
    List QueueRow :=
  if rows.any fun row => row.rootId = e.rootId ∧ row.path = e.path then
    rows.map fun row =>
      if row.rootId = e.rootId ∧ row.path = e.path then merge row e else row
  else rows ++ [e.row]

/-- `enqueue` in `db.rs`. -/
def enqueue (rows : List QueueRow) (e : Enqueued) : List QueueRow :=
  upsert QueueRow.mergeTask rows e

structure EnqueueIndexTaskInput where
  rootId : String
  storagePoolId : Option String
  path : Option String
  recursive : Option Bool
  kind : Option Kind
  priority : Option Int

def normalizeIndexPath (value : String) : Except String String :=
  (Spelling.normalizeIndexPath value.toList).map String.ofList

def enqueueIndexTask (rows : List QueueRow) (id now : Nat) (input : EnqueueIndexTaskInput) :
    Except String (List QueueRow) := do
  let path ← normalizeIndexPath (input.path.getD ".")
  let kind := input.kind.getD .incremental
  return upsert QueueRow.mergeTask rows {
    id := id
    rootId := input.rootId
    storagePoolId := input.storagePoolId
    path := path
    recursive := input.recursive.getD false
    kind := kind
    priority := input.priority.getD
      (if kind = .manual then 100 else if kind = .incremental then 50 else 10)
    now := now }

/-- The insert of `finalize_publish` for the file that was published. -/
def enqueuePublished (rows : List QueueRow) (id now : Nat) (rootId : String)
    (storagePoolId : Option String) (targetPath : String) : List QueueRow :=
  upsert QueueRow.mergeDownload rows
    ⟨id, rootId, storagePoolId, targetPath, false, .incremental, 50, now⟩

/-! ## Workers -/

/-- The columns of a claimed row that its worker goes on with. -/
structure QueueTask where
  id : Nat
  rootId : String
  storagePoolId : Option String
  path : String
  recursive : Bool
  kind : Kind
  generation : Nat
  retryCount : Nat
  deriving DecidableEq, Repr

def QueueRow.task (row : QueueRow) : QueueTask :=
  ⟨row.id, row.rootId, row.storagePoolId, row.path, row.recursive, row.kind, row.generation,
    row.retryCount⟩

/-- The first statement of `claim`: leases that are over. -/
def QueueRow.expire (row : QueueRow) (now : Nat) : QueueRow :=
  if row.status = .running ∧ (row.leaseExpiresAt.all fun t => t ≤ now) then
    { row with status := .queued, workerId := none, leaseExpiresAt := none, updatedAt := now }
  else row

def QueueRow.waiting (row : QueueRow) (now : Nat) : Bool :=
  row.status = .queued || (row.status = .retrying && row.nextRetryAt.any fun t => t ≤ now)

def leaseMillis : Nat := 30000

def QueueRow.start (row : QueueRow) (workerId now : Nat) : QueueRow :=
  { row with
    status := .running
    workerId := some workerId
    leaseExpiresAt := some (now + leaseMillis)
    startedAt := some (row.startedAt.getD now)
    nextRetryAt := none
    error := none
    errorCode := none
    updatedAt := now }

/-- `claim`; which of the waiting rows is taken is left to the caller, and with
no row waiting only the expired leases are taken back. -/
def claim (rows : List QueueRow) (workerId now : Nat) (id : Nat) :
    List QueueRow × Option QueueTask :=
  let rows := rows.map (·.expire now)
  match rows.find? fun row => row.id = id ∧ row.waiting now with
  | none => (rows, none)
  | some row =>
      (rows.map fun row => if row.id = id then row.start workerId now else row, some row.task)

/-- `id = ? AND generation = ? AND status = 'running' AND worker_id = ?`. -/
def QueueRow.ownedBy (row : QueueRow) (task : QueueTask) (workerId : Nat) : Bool :=
  row.id = task.id ∧ row.generation = task.generation ∧ row.status = .running ∧
    row.workerId = some workerId

def QueueRow.renewed (row : QueueRow) (now : Nat) : QueueRow :=
  { row with leaseExpiresAt := some (now + leaseMillis), updatedAt := now }

def renewLease (rows : List QueueRow) (task : QueueTask) (workerId now : Nat) :
    List QueueRow :=
  rows.map fun row => if row.ownedBy task workerId then row.renewed now else row

def completeTask (rows : List QueueRow) (task : QueueTask) (workerId : Nat) :
    List QueueRow :=
  rows.filter fun row => !row.ownedBy task workerId

structure IndexerError where
  code : String
  message : String
  retryable : Bool

def retryDelayMillis (retryCount : Nat) : Nat := min (2 * 2 ^ retryCount) 300 * 1000

def QueueRow.retried (row : QueueRow) (task : QueueTask) (now : Nat) (error : IndexerError) :
    QueueRow :=
  let retry := error.retryable && task.retryCount + 1 ≤ 5
  { row with
    status := if retry then .retrying else .failed
    retryCount := task.retryCount + 1
    nextRetryAt := if retry then some (now + retryDelayMillis task.retryCount) else none
    workerId := none
    leaseExpiresAt := none
    error := some error.message
    errorCode := some error.code
    updatedAt := now
    finishedAt := if retry then none else some now }

def retryOrFail (rows : List QueueRow) (task : QueueTask) (workerId now : Nat)
    (error : IndexerError) : List QueueRow :=
  rows.map fun row => if row.ownedBy task workerId then row.retried task now error else row

/-! ## Runs

An attempt is a claim that was answered with a task. The worker may be slow,
so its statements come at any time after that, in any number. `time` counts
the steps, and `enqueuedAt` says when a path was last enqueued; the programs
read neither. -/

structure Attempt where
  workerId : Nat
  task : QueueTask
  claimedAt : Nat
  deriving DecidableEq, Repr

structure State where
  rows : List QueueRow
  nextId : Nat
  attempts : List Attempt
  time : Nat
  enqueuedAt : String → String → Option Nat

def Initial (s : State) : Prop :=
  s.rows = [] ∧ s.attempts = [] ∧ ∀ rootId path, s.enqueuedAt rootId path = none

inductive Action where
  | enqueue (now : Nat) (rootId : String) (storagePoolId : Option String) (path : String)
      (recursive : Bool) (kind : Kind) (priority : Int)
  | enqueueIndexTask (now : Nat) (input : EnqueueIndexTaskInput)
  | finalizePublish (now : Nat) (rootId : String) (storagePoolId : Option String)
      (targetPath : String)
  | claim (workerId now id : Nat)
  /-- The statements of the attempt with this number. -/
  | renewLease (attempt now : Nat)
  | completeTask (attempt : Nat)
  | retryOrFail (attempt now : Nat) (error : IndexerError)

/-- The state after a path was enqueued. -/
def State.enqueued (s : State) (rootId path : String) (rows : List QueueRow) : State :=
  { s with
    rows := rows
    nextId := s.nextId + 1
    time := s.time + 1
    enqueuedAt := fun r p => if r = rootId ∧ p = path then some s.time else s.enqueuedAt r p }

def step (s : State) : Action → Option State
  | .enqueue now rootId storagePoolId path recursive kind priority =>
      some (s.enqueued rootId path (enqueue s.rows
        ⟨s.nextId, rootId, storagePoolId, path, recursive, kind, priority, now⟩))
  | .enqueueIndexTask now input => do
      let path ← (normalizeIndexPath (input.path.getD ".")).toOption
      let rows ← (enqueueIndexTask s.rows s.nextId now input).toOption
      return s.enqueued input.rootId path rows
  | .finalizePublish now rootId storagePoolId targetPath =>
      some (s.enqueued rootId targetPath
        (enqueuePublished s.rows s.nextId now rootId storagePoolId targetPath))
  | .claim workerId now id =>
      let (rows, task) := claim s.rows workerId now id
      some { s with
        rows := rows
        attempts := s.attempts ++ (task.map fun task => ⟨workerId, task, s.time⟩).toList
        time := s.time + 1 }
  | .renewLease attempt now => do
      let a ← s.attempts[attempt]?
      return { s with
        rows := renewLease s.rows a.task a.workerId now, time := s.time + 1 }
  | .completeTask attempt => do
      let a ← s.attempts[attempt]?
      return { s with rows := completeTask s.rows a.task a.workerId, time := s.time + 1 }
  | .retryOrFail attempt now error => do
      let a ← s.attempts[attempt]?
      return { s with
        rows := retryOrFail s.rows a.task a.workerId now error, time := s.time + 1 }

end Zos.Indexer
