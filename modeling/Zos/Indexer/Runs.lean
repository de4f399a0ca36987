import Mathlib.Algebra.Group.Nat.Defs
import Mathlib.Data.List.Sort
import Zos.Lib.Reach

/-!
# Index runs

`start_run` and `finish_run` of `apps/indexer/src/db.rs`, on the rows that one root has in
`index_runs`, `index_failures` and `index_run_history`. Each of them is one transaction, so a call
that fails changes nothing. Timestamps are compared as texts; here they are of any type with a
linear order. The ids of failures and the column `root_id` are left out.
-/

namespace Zos.Indexer.Runs

open Zos.Lib

inductive Status where
  | running
  | completed
  | failed
  deriving DecidableEq, Repr

inductive Kind where
  | full
  | incremental
  | manual
  deriving DecidableEq, Repr

structure Counters where
  scanned : Nat
  indexed : Nat
  unchanged : Nat
  removed : Nat
  skipped : Nat
  failed : Nat
  bytes : Nat
  fileCount : Nat
  textFileCount : Nat
  deriving DecidableEq, Repr

/-- The defaults of the columns. -/
def Counters.zero : Counters := ⟨0, 0, 0, 0, 0, 0, 0, 0, 0⟩

structure RunStats where
  scanned : Nat
  indexed : Nat
  unchanged : Nat
  removed : Nat
  skipped : Nat
  failed : Nat
  bytes : Nat
  textFiles : Nat
  failures : List (String × String)

def RunStats.counters (stats : RunStats) : Counters :=
  ⟨stats.scanned, stats.indexed, stats.unchanged, stats.removed, stats.skipped, stats.failed,
    stats.bytes, stats.indexed + stats.unchanged, stats.textFiles⟩

/-- `i64_from` of everything that is stored. -/
def RunStats.storable (stats : RunStats) : Bool :=
  [stats.scanned, stats.indexed, stats.unchanged, stats.removed, stats.skipped, stats.failed,
    stats.bytes, stats.indexed + stats.unchanged, stats.textFiles].all (· < 2 ^ 63)

section

variable {τ : Type}

structure Run (τ : Type) where
  id : String
  status : Status
  startedAt : τ
  finishedAt : Option τ
  counters : Counters
  error : Option String
  durationMs : Option Int
  phase : Option String
  currentPath : Option String
  lastProgressAt : Option τ
  kind : Kind
  deriving DecidableEq

structure Failure (τ : Type) where
  runId : String
  path : String
  reason : String
  createdAt : τ
  deriving DecidableEq

/-- A row of `index_run_history`, with the content of `failures_json`. -/
structure Archived (τ : Type) where
  run : Run τ
  failures : List (String × String)
  deriving DecidableEq

structure Tables (τ : Type) where
  runs : List (Run τ)
  failures : List (Failure τ)
  history : List (Archived τ)

/-- `COALESCE(finished_at, started_at)`. -/
def Run.time (run : Run τ) : τ := run.finishedAt.getD run.startedAt

def Run.finished (run : Run τ) : Bool := run.status ≠ .running

def Run.interrupt (now : τ) (run : Run τ) : Run τ :=
  if run.status = .running then
    { run with
      status := .failed
      finishedAt := some now
      error := some "interrupted/superseded" }
  else run

variable [LinearOrder τ]

/-- The failures of a run as they are archived. -/
def failuresOf (failures : List (Failure τ)) (runId : String) : List (String × String) :=
  ((failures.filter (·.runId = runId)).mergeSort fun a b => a.createdAt ≤ b.createdAt).map
    fun failure => (failure.path, failure.reason)

/-- `INSERT OR REPLACE` into the history, and `DELETE`, which takes the failures along. -/
def archiveRun (tables : Tables τ) (row : Run τ) : Tables τ where
  runs := tables.runs.filter (·.id ≠ row.id)
  failures := tables.failures.filter (·.runId ≠ row.id)
  history := tables.history.filter (·.run.id ≠ row.id) ++
    [⟨row, failuresOf tables.failures row.id⟩]

/-- The finished runs, newest first. -/
def finishedRows (runs : List (Run τ)) : List (Run τ) :=
  (runs.filter Run.finished).mergeSort fun a b => b.time ≤ a.time

def newest (rows : List (Run τ)) : Option String := rows.head?.map Run.id

def newestFull (rows : List (Run τ)) : Option String :=
  (rows.find? (·.kind = .full)).map Run.id

/-- One of the two rows that stay. -/
def retained (rows : List (Run τ)) (row : Run τ) : Bool :=
  newest rows = some row.id || newestFull rows = some row.id

def archivePreviousRuns (now : τ) (tables : Tables τ) : Tables τ :=
  let tables := { tables with runs := tables.runs.map (Run.interrupt now) }
  let rows := finishedRows tables.runs
  rows.foldl (fun tables row => if retained rows row then tables else archiveRun tables row) tables

def newRun (id : String) (kind : Kind) (now : τ) : Run τ :=
  ⟨id, .running, now, none, .zero, none, none, some "scanning", none, some now, kind⟩

def startRun (id : String) (kind : Kind) (now : τ) (tables : Tables τ) : Tables τ :=
  let tables := archivePreviousRuns now tables
  { tables with runs := tables.runs ++ [newRun id kind now] }

/-- The `UPDATE` at the end; it finds a run only while it is running. -/
def Run.finish (runId : String) (stats : RunStats) (completed : Bool) (now : τ) (run : Run τ) :
    Run τ :=
  if run.id = runId ∧ run.status = .running then
    { run with
      status := if completed then .completed else .failed
      finishedAt := some now
      counters := stats.counters
      error := if completed then none else some "one or more files failed"
      phase := some "completed"
      lastProgressAt := some now }
  else run

/-- There has to be a row of the run, and every counter has to be a signed word. -/
def finishRun (runId : String) (stats : RunStats) (completed : Bool) (now : τ)
    (tables : Tables τ) : Option (Tables τ) :=
  if tables.runs.any (·.id = runId) ∧ stats.storable then
    some { tables with
      runs := tables.runs.map (Run.finish runId stats completed now)
      failures := tables.failures ++
        stats.failures.map fun failure => ⟨runId, failure.1, failure.2, now⟩ }
  else none

/-! ## Purpose -/

/-- What there is to keep of a run: the counters that its row was given, and its failures. -/
structure Entry where
  id : String
  counters : Counters
  failures : List (String × String)

/-- The tables, and an account of every run there ever was. -/
structure State (τ : Type) where
  tables : Tables τ
  ledger : List Entry

inductive Call (τ : Type) where
  | start (id : String) (kind : Kind) (now : τ)
  | finish (runId : String) (stats : RunStats) (completed : Bool) (now : τ)

/-- The run is running, so that its counters are stored. -/
def Tables.isRunning (tables : Tables τ) (runId : String) : Bool :=
  tables.runs.any fun run => run.id = runId && run.status = .running

def Entry.finish (tables : Tables τ) (runId : String) (stats : RunStats) (entry : Entry) : Entry :=
  if entry.id = runId then
    { entry with
      counters := if tables.isRunning runId then stats.counters else entry.counters
      failures := entry.failures ++ stats.failures }
  else entry

def step (s : State τ) : Call τ → Option (State τ)
  | .start id kind now =>
      some ⟨startRun id kind now s.tables, s.ledger ++ [⟨id, .zero, []⟩]⟩
  | .finish runId stats completed now =>
      (finishRun runId stats completed now s.tables).map fun tables =>
        ⟨tables, s.ledger.map (Entry.finish s.tables runId stats)⟩

/-- `Uuid::new_v4` returns an id that no run has. -/
def FreshIds (s : State τ) : Call τ → Prop
  | .start id _ _ => ∀ entry ∈ s.ledger, entry.id ≠ id
  | .finish .. => True

/-- The newest finished run, and the newest full one, are in `index_runs`. -/
structure NewestKept (tables : Tables τ) : Prop where
  any : ∀ archived ∈ tables.history,
    ∃ run ∈ tables.runs, run.finished = true ∧ archived.run.time ≤ run.time
  full : ∀ archived ∈ tables.history, archived.run.kind = .full →
    ∃ run ∈ tables.runs, run.finished = true ∧ run.kind = .full ∧ archived.run.time ≤ run.time

/-- Keys, and no run in two tables. -/
structure Keyed (tables : Tables τ) : Prop where
  runs : (tables.runs.map Run.id).Nodup
  history : (tables.history.map (·.run.id)).Nodup
  failures : ∀ failure ∈ tables.failures, ∃ run ∈ tables.runs, run.id = failure.runId
  disjoint : ∀ run ∈ tables.runs, ∀ archived ∈ tables.history, run.id ≠ archived.run.id

structure InRuns (tables : Tables τ) (entry : Entry) : Prop where
  row : ∃ run ∈ tables.runs, run.id = entry.id ∧ run.counters = entry.counters
  failures : (failuresOf tables.failures entry.id).Perm entry.failures

def InHistory (tables : Tables τ) (entry : Entry) : Prop :=
  ∃ archived ∈ tables.history, archived.run.id = entry.id ∧
    archived.run.counters = entry.counters ∧ archived.failures.Perm entry.failures

/-- Some content of the tables, in which nothing in the history is newer than all that is not. -/
structure Content (τ : Type) [LinearOrder τ] where
  tables : Tables τ
  keyed : Keyed tables
  newest : NewestKept tables

def Content.state (content : Content τ) : State τ where
  tables := content.tables
  ledger :=
    (content.tables.runs.map fun run =>
      ⟨run.id, run.counters, failuresOf content.tables.failures run.id⟩) ++
    content.tables.history.map fun archived =>
      ⟨archived.run.id, archived.run.counters, archived.failures⟩

/-- What is to hold in every state. -/
structure Kept (s : State τ) : Prop where
  /-- Every run is in one of the tables and not in the other one. -/
  once : ∀ entry ∈ s.ledger, InRuns s.tables entry ∧ (∀ archived ∈ s.tables.history,
      archived.run.id ≠ entry.id) ∨
    InHistory s.tables entry ∧ ∀ run ∈ s.tables.runs, run.id ≠ entry.id
  newest : NewestKept s.tables
  /-- After a start one run is running. -/
  started : ∀ (id : String) (kind : Kind) (now : τ),
    ((startRun id kind now s.tables).runs.filter fun run => run.status = .running).length = 1

def LosesNothing (content : Content τ) : Prop :=
  ∀ s, Reach step FreshIds (· = content.state) s → Kept s

end

end Zos.Indexer.Runs
