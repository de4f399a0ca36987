import Zos.Lib.Reach

/-!
# What the health report says about backups

The issues `backup_failed` and `backup_stale` of `evaluateSystemHealth` in
`packages/system-health/src/index.ts`, over the runs that
`packages/db/src/repositories/backup-runs.ts` writes and `runOpsMaintenanceRetention` of
`packages/db/src/repositories/ops-maintenance.ts` deletes.

A history is the list of all runs in the order of `idx_backup_runs_started_at`, the latest first.
A row that was deleted stays in it and is marked; no statement sees it any more. `startBackupRun`
is two statements. Times are what the clocks of the processes say, in milliseconds; no two runs
start at the same time.
-/

namespace Zos.Backup.Health

open Zos.Lib (Reach anyStep)

inductive RunKind where
  | daily
  | weekly
  | check
  | restore
  deriving DecidableEq, Repr

inductive RunStatus where
  | validating
  | running
  | completed
  | failed
  | interrupted
  deriving DecidableEq, Repr

structure Run where
  id : Nat
  kind : RunKind
  status : RunStatus
  startedAt : Int
  finishedAt : Option Int
  deleted : Bool
  deriving DecidableEq, Repr

abbrev History := List Run

def RunKind.scheduled (kind : RunKind) : Bool := kind = .daily || kind = .weekly

/-- `status IN ('validating', 'running')`. -/
def RunStatus.active (status : RunStatus) : Bool := status = .validating || status = .running

/-! ## The table -/

/-- A row that is not deleted and is active. -/
def Run.open (run : Run) : Bool := !run.deleted && run.status.active

def Run.finish (run : Run) (status : RunStatus) (now : Int) : Run :=
  { run with status := status, finishedAt := some now }

def insertRun (run : Run) : History → History
  | [] => [run]
  | other :: rest =>
    if other.startedAt < run.startedAt then run :: other :: rest else other :: insertRun run rest

/-- Deletes the rows that are not active but for the `keep` latest. -/
def retain (keep : Nat) : History → History
  | [] => []
  | run :: rest =>
    if run.deleted || run.status.active then run :: retain keep rest
    else if keep = 0 then { run with deleted := true } :: retain 0 rest
    else run :: retain (keep - 1) rest

def runOpsMaintenanceRetention (history : History) : History := retain 30 history

def listBackupRuns (history : History) (limit : Nat) : List Run :=
  (history.filter (!·.deleted)).take limit

inductive Action where
  /-- The statements of `startBackupRun`. -/
  | interrupt (now : Int)
  | insert (id : Nat) (kind : RunKind) (now : Int)
  | finishBackupRun (id : Nat) (status : RunStatus) (now : Int)
  | runOpsMaintenanceRetention

def step (history : History) : Action → Option History
  | .interrupt now =>
    some (history.map fun run => if run.open then run.finish .interrupted now else run)
  | .insert id kind now =>
    if history.any fun run => run.id = id || run.startedAt = now then none
    else some (insertRun ⟨id, kind, .running, now, none, false⟩ history)
  | .finishBackupRun id status now =>
    if status.active then none
    else some (history.map fun run =>
      if run.id = id && run.open then run.finish status now else run)
  | .runOpsMaintenanceRetention => some (Health.runOpsMaintenanceRetention history)

/-- What is left of an empty table. -/
structure Reached where
  history : History
  reached : Reach step anyStep (· = []) history

/-! ## The report -/

/-- `config.backup?.enabled` and `config.health?.backupStaleMs`. -/
structure Config where
  enabled : Bool
  backupStaleMs : Option Int
  deriving DecidableEq, Repr

inductive Issue where
  | backupFailed
  | backupStale
  deriving DecidableEq, Repr

def Run.unsuccessful (run : Run) : Bool := run.status = .failed || run.status = .interrupted

def Run.backup (run : Run) : Bool := run.kind.scheduled && run.status = .completed

/-- The last successful backup is too long ago. -/
def Config.stale (config : Config) (now : Int) (run : Run) : Bool :=
  match config.backupStaleMs, run.finishedAt with
  | some limit, some finishedAt => limit < now - finishedAt
  | _, _ => false

def backupIssues (config : Config) (history : History) (now : Int) : List Issue :=
  let backupRuns := listBackupRuns history 30
  let latestScheduledBackup := backupRuns.find? (·.kind.scheduled)
  let latestBackup := backupRuns.find? (·.backup)
  if config.enabled then
    (if latestScheduledBackup.any (·.unsuccessful) then [.backupFailed] else []) ++
      if latestBackup.all (config.stale now) then [.backupStale] else []
  else []

/-! ## The truth -/

/-- A backup that was completed within the limit before `now`. -/
def Run.Recent (run : Run) (limit now : Int) : Prop :=
  run.backup = true ∧ ∃ finishedAt ∈ run.finishedAt, finishedAt ≤ now ∧ now - finishedAt ≤ limit

/-- The scheduled run that was started last. -/
def Latest (history : History) (run : Run) : Prop :=
  run ∈ history ∧ run.kind.scheduled = true ∧
    ∀ other ∈ history, other.kind.scheduled = true → other.startedAt ≤ run.startedAt

structure Truthful (history : History) (limit now : Int) : Prop where
  stale : .backupStale ∈ backupIssues ⟨true, some limit⟩ history now ↔
    ¬ ∃ run ∈ history, run.Recent limit now
  failed : .backupFailed ∈ backupIssues ⟨true, some limit⟩ history now ↔
    ∃ run, Latest history run ∧ run.unsuccessful = true

/-- The last 30 runs of the history tell. -/
structure Telling (history : History) (limit now : Int) : Prop where
  /-- The latest scheduled run is among them if it was not successful. -/
  latest : ∀ run, Latest history run → run.unsuccessful = true → run ∈ history.take 30
  /-- If there is a recent backup, the latest one among them is not too long ago. -/
  recent : (∃ run ∈ history, run.Recent limit now) →
    ∃ run, (history.take 30).find? (·.backup) = some run ∧
      ∃ finishedAt ∈ run.finishedAt, now - finishedAt ≤ limit
  /-- If the latest one among them finishes later than `now`, there is a recent backup. -/
  past : ∀ run, (history.take 30).find? (·.backup) = some run →
    (∃ finishedAt ∈ run.finishedAt, now < finishedAt ∧ now - finishedAt ≤ limit) →
      ∃ run ∈ history, run.Recent limit now

end Zos.Backup.Health
