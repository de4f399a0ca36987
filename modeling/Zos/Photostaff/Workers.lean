import Zos.Lib.Reach
import Zos.Photostaff.Db

/-!
# Workers at the tables of the photo service

Any number of daemons and the API make their statements in any order, with any clock. A
worker holds a job by the lease in its row. Ids of jobs and operations are drawn anew, and a
record that is published is the one that was journalled. Leases and clocks are numbers here;
the statements compare their texts.
-/

namespace Zos.Photostaff

/-- What a worker does under its lease. -/
inductive Work where
  | finishJob (job : Job)
  | addScanEntry (jobId : Nat) (path : String) (entryType : EntryType)
  | initializeScan (job : Job)
  | claimEntry (jobId : Nat) (entryType : EntryType) (path : String)
  | completeEntry (jobId : Nat) (path : String)
  | skipEntry (jobId : Nat) (path : String)
  | failEntry (jobId : Nat) (path : String) (nextRetryAt : Option Nat)
  | markCurrentIfUnchanged (job : Job) (path : String) (source : FileIdentity)
      (sidecar : Option (String × FileIdentity))
  | recordFailedAsset (job : Job) (path : String) (source : FileIdentity)
  | beginPublish (record : PublishRecord)

def Work.execute (db : Db) (worker now : Nat) : Work → Option Db
  | .finishJob job => Photostaff.finishJob db job worker now
  | .addScanEntry jobId path entryType =>
      Photostaff.addScanEntry db jobId path entryType worker now
  | .initializeScan job => Photostaff.initializeScan db job worker now
  | .claimEntry jobId entryType path =>
      Photostaff.claimEntry db jobId entryType path worker now
  | .completeEntry jobId path => Photostaff.completeEntry db jobId path worker now
  | .skipEntry jobId path => Photostaff.skipEntry db jobId path worker now
  | .failEntry jobId path nextRetryAt =>
      Photostaff.failEntry db jobId path nextRetryAt worker now
  | .markCurrentIfUnchanged job path source sidecar =>
      (Photostaff.markCurrentIfUnchanged db job path source sidecar worker now).map (·.2)
  | .recordFailedAsset job path source =>
      Photostaff.recordFailedAsset db job path source worker now
  | .beginPublish record =>
      if db.hasJournal record.operationId then none
      else Photostaff.beginPublish db record worker now

inductive Statement where
  | ensurePeriodicJob (settings : LibrarySettings) (interval id now : Nat)
  | enqueuePhotostaffJob (settings : LibrarySettings) (kind : JobKind) (path : String)
      (queueAfterRunning : Bool) (id now : Nat)
  | savePhotostaffLibrarySettings (rootId storagePoolId path : String) (now : Nat)
  | claimJob (worker : Nat) (choice : Option Nat) (now : Nat)
  | renewLease (jobId worker now : Nat)
  | retryOrFailJob (job : Job) (worker : Nat) (nextRetryAt : Option Nat)
  | releaseWorker (worker : Nat)
  | work (worker now : Nat) (work : Work)
  | completePublish (record : PublishRecord) (worker : Option Nat) (now : Nat)
  | abortJournal (operationId : Nat) (requeue : Bool) (worker : Option Nat) (now : Nat)

def execute (db : Db) : Statement → Option Db
  | .ensurePeriodicJob settings interval id now =>
      if db.jobs.any (·.id = id) then none
      else some (ensurePeriodicJob db settings interval id now)
  | .enqueuePhotostaffJob settings kind path queueAfterRunning id now =>
      if db.jobs.any (·.id = id) then none
      else some (enqueuePhotostaffJob db settings kind path queueAfterRunning id now)
  | .savePhotostaffLibrarySettings rootId storagePoolId path now =>
      savePhotostaffLibrarySettings db rootId storagePoolId path now
  | .claimJob worker choice now => (claimJob db worker choice now).map (·.2)
  | .renewLease jobId worker now => some (renewLease db jobId worker now)
  | .retryOrFailJob job worker nextRetryAt => some (retryOrFailJob db job worker nextRetryAt)
  | .releaseWorker worker => some (releaseWorker db worker)
  | .work worker now work => work.execute db worker now
  | .completePublish record worker now =>
      if db.hasJournal record.operationId ∧ record ∉ db.journals then none
      else (completePublish db record worker now).map (·.2)
  | .abortJournal operationId requeue worker now =>
      abortJournal db operationId requeue worker now

structure Reached where
  db : Db
  reached : Zos.Lib.Reach execute Zos.Lib.anyStep (· = Db.empty) db

/-! ## Leases -/

/-- Whose statement it is; the API and the recovery of journals are nobody's. -/
def Statement.worker : Statement → Option Nat
  | .claimJob worker _ _ | .renewLease _ worker _ | .retryOrFailJob _ worker _
  | .releaseWorker worker | .work worker _ _ => some worker
  | .completePublish _ worker _ | .abortJournal _ _ worker _ => worker
  | _ => none

/-- The clock that leases are compared with. -/
def Statement.clock : Statement → Option Nat
  | .claimJob _ _ now | .work _ now _ | .completePublish _ _ now | .abortJournal _ _ _ now =>
      some now
  | _ => none

/-- The row is of a job that runs under the worker until the time. -/
structure JobRow.LeasedTo (row : JobRow) (worker expiry : Nat) : Prop where
  running : row.status = .running
  worker : row.workerId = some worker
  expiry : row.leaseExpiresAt = some expiry

/-- A statement of somebody else that comes before the lease runs out and does not end all
jobs with their library. -/
structure Statement.Foreign (worker expiry : Nat) (statement : Statement) : Prop where
  other : statement.worker ≠ some worker
  before : ∀ now ∈ statement.clock, now < expiry
  library : ∀ rootId storagePoolId path now,
    statement ≠ .savePhotostaffLibrarySettings rootId storagePoolId path now

/-- What the tables have of a job besides its row. -/
def Db.workOf (db : Db) (jobId : Nat) : List ScanEntry × List PublishRecord :=
  (db.entries.filter (·.jobId = jobId), db.journals.filter (·.jobId = jobId))

/-! ## Tables that fit together -/

/-- A worker and a lease are there while the job runs, and only then. -/
def JobRow.Held (row : JobRow) : Prop :=
  (row.workerId.isSome ↔ row.status = .running) ∧
    (row.leaseExpiresAt.isSome ↔ row.status = .running)

/-- A photo is published once at a time. -/
structure Db.Journalled (db : Db) : Prop where
  operations : (db.journals.map (·.operationId)).Nodup
  photos : (db.journals.map fun record => (record.jobId, record.location.path)).Nodup

structure Db.Consistent (db : Db) : Prop extends db.Journalled where
  jobs : (db.jobs.map (·.id)).Nodup
  held : ∀ row ∈ db.jobs, row.Held
  ofJobs : ∀ id, db.workOf id ≠ ([], []) → ∃ row ∈ db.jobs, row.id = id

end Zos.Photostaff
