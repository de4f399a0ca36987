import Mathlib.Data.List.Dedup

/-!
# What a run leaves in the repository

`runBackup` of `apps/backup/src/backup.ts`, with the snapshots its commands write. Each ready root
is backed up under its own path; the state is backed up from a directory that
`mkdtemp(run-<id>-)` makes for the run and that is removed at its end, so that the path is another
one in every run. `restic forget` applies its rules to the snapshots of one path at a time.
-/

namespace Zos.Backup.Retention

/-- The path a snapshot was taken of. -/
inductive Source where
  | root (path : String)
  | staging (runId : String)
  deriving DecidableEq, Repr

structure Snapshot where
  source : Source
  time : Nat
  deriving DecidableEq, Repr

structure Root where
  id : String
  path : String
  deriving DecidableEq, Repr

/-- The configured numbers went through `toPositiveInteger`. -/
structure Config where
  roots : List Root
  retryCount : Nat
  keepDaily : Nat
  keepWeekly : Nat
  keepDaily_pos : 0 < keepDaily
  keepWeekly_pos : 0 < keepWeekly

def Config.limit (config : Config) : Nat := config.keepDaily + config.keepWeekly

/-- The keep rules on the snapshots of one path, oldest first. The newest one is kept, as it is the
last of its day. -/
structure KeepRules (config : Config) where
  keep : List Snapshot → List Snapshot
  sublist : ∀ group, (keep group).Sublist group
  length_le : ∀ group, (keep group).length ≤ config.limit
  newest : ∀ group snapshot, group.getLast? = some snapshot → snapshot ∈ keep group

inductive Kind where
  | daily | weekly
  deriving DecidableEq, Repr

/-- The places at which `ensureLease` is called. -/
inductive Stage where
  | start | root (root : Root) | state | visible | check | prune
  deriving DecidableEq, Repr

/-- What one call of `restic backup` does: a call that fails may have written its snapshot. -/
structure Reply where
  code : Nat
  snapshotIds : List String
  written : Option Nat
  deriving DecidableEq, Repr

/-- A run with everything it is answered. The call number `n` of a command that is repeated is
answered by `n`. -/
structure Run where
  id : String
  kind : Kind
  leased : Stage → Bool
  targetReady : Bool
  rootReady : Root → Bool
  staged : Bool
  backupRoot : Root → Nat → Reply
  backupState : Nat → Reply
  visible : Bool
  checked : Bool
  pruned : Bool

/-- The times of the snapshots written by the calls, and the last reply. -/
def runResticWithRetry (reply : Nat → Reply) : Nat → Nat → List Nat × Reply
  | attempt, 0 => ((reply attempt).written.toList, reply attempt)
  | attempt, retries + 1 =>
    if (reply attempt).code = 0 then ((reply attempt).written.toList, reply attempt)
    else
      let (times, last) := runResticWithRetry reply (attempt + 1) retries
      ((reply attempt).written.toList ++ times, last)

def succeeded (reply : Reply) : Bool := reply.code = 0 ∧ reply.snapshotIds ≠ []

/-- The loop over the ready roots: the snapshots it writes and whether one of the roots failed, or
`none` if the lease was lost. -/
def backupRoots (config : Config) (run : Run) : List Root → List Snapshot × Option Bool
  | [] => ([], some false)
  | root :: rest =>
    if run.leased (.root root) then
      let (times, last) := runResticWithRetry (run.backupRoot root) 0 config.retryCount
      let (snapshots, failed) := backupRoots config run rest
      (times.map (⟨.root root.path, ·⟩) ++ snapshots, failed.map (· || !succeeded last))
    else ([], none)

def backupState (config : Config) (run : Run) : List Snapshot × Bool :=
  if run.leased .state then
    let (times, last) := runResticWithRetry run.backupState 0 config.retryCount
    (times.map (⟨.staging run.id, ·⟩), succeeded last)
  else ([], false)

/-- The snapshots a run writes, and whether it gets as far as forgetting some. -/
def runBackup (config : Config) (run : Run) : List Snapshot × Bool :=
  if run.leased .start && run.targetReady && run.staged then
    match backupRoots config run (config.roots.filter run.rootReady) with
    | (ofRoots, none) => (ofRoots, false)
    | (ofRoots, some failed) =>
      let (ofState, saved) := backupState config run
      let complete := saved && run.leased .visible && run.visible &&
        !(failed || config.roots.any (!run.rootReady ·))
      (ofRoots ++ ofState, complete && run.kind = .weekly && run.leased .check && run.checked &&
        run.leased .prune && run.pruned)
  else ([], false)

def group (source : Source) (repository : List Snapshot) : List Snapshot :=
  repository.filter (·.source = source)

/-- `restic forget` groups by the paths of the snapshots. -/
def forget {config : Config} (rules : KeepRules config) (repository : List Snapshot) :
    List Snapshot :=
  (repository.map Snapshot.source).dedup.flatMap fun source => rules.keep (group source repository)

def afterRun {config : Config} (rules : KeepRules config) (repository : List Snapshot)
    (run : Run) : List Snapshot :=
  let (written, prunes) := runBackup config run
  if prunes then forget rules (repository ++ written) else repository ++ written

/-- The repository after some runs, from its initialisation on. -/
def repositoryAfter {config : Config} (rules : KeepRules config) (runs : List Run) :
    List Snapshot :=
  runs.foldl (afterRun rules) []

def ofState (snapshot : Snapshot) : Bool :=
  match snapshot.source with
  | .staging _ => true
  | .root _ => false

/-- Runs under one configuration. The ids are random, and each weekly run reaches its prune. -/
structure History (config : Config) where
  runs : List Run
  ids : (runs.map Run.id).Nodup
  weekly : ∀ run ∈ runs, run.kind = .weekly → (runBackup config run).2 = true

structure Bounded (config : Config) (repository : List Snapshot) : Prop where
  state : (repository.filter ofState).length ≤ config.limit
  roots : ∀ root ∈ config.roots, (group (.root root.path) repository).length ≤ config.limit

/-- Nothing keeps the run from backing up the state. -/
def Run.reachesState (config : Config) (run : Run) : Bool :=
  run.leased .start && run.targetReady && run.staged &&
    (config.roots.filter run.rootReady).all (fun root => run.leased (.root root)) &&
    run.leased .state

/-- How many state snapshots the run saves: those of the calls before which all have failed. -/
def Run.statesSaved (config : Config) (run : Run) : Nat :=
  if run.reachesState config then
    (List.range (config.retryCount + 1)).countP fun n => (run.backupState n).written.isSome ∧
      ∀ earlier < n, (run.backupState earlier).code ≠ 0
  else 0

end Zos.Backup.Retention
