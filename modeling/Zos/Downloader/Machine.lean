import Zos.Downloader.Db

/-!
# Workers, recovery passes and download requests

Everything that changes a download task: the attempts of the workers
(`handle_task` with the `run_task` inside it), the passes of
`recover_publish_journals`, the statements of the worker loop and the requests
of `routes/downloads.ts`. A thread stands at a program point between two calls
that others can see, and a step is one such call: a database transaction, one
look at a file, one change of a file. Every thread may also stop anywhere,
which covers shutdown, an aborted task and a crash.

What an attempt writes into its partial file does not matter here and is left
to the environment; the identity of the file does. Two fields are read by
nothing: `accepted` lists the pause and cancel requests accepted since a task
was claimed, and the `origin` of a target file is the journal under which
`publish` renamed it.
-/

namespace Zos.Downloader

/-! ## Program points -/

/-- Who holds the `flock` of a partial file. -/
inductive Holder where
  | attempt (a : Nat)
  | pass (workerId : Nat)
  deriving DecidableEq, Repr

structure PartialFile where
  identity : FileIdentity
  lock : Option Holder
  deriving DecidableEq, Repr

structure TargetFile where
  identity : FileIdentity
  origin : Option PublishJournal
  deriving DecidableEq, Repr

/-- Where an attempt is: in `run_task` up to `finalized`, with the lock of the
partial file from `transferring` to `publishing`, and then in the end of
`handle_task`. An attempt is `dropped` when its future went while
`begin_publish` was in flight: the database thread still runs the call. -/
inductive Stage where
  | started
  | probing
  | transferring
  | prepared (journal : PublishJournal)
  | publishing (journal : PublishJournal)
  | renamed (journal : PublishJournal)
  | finalized
  | dropped (journal : PublishJournal)
  | failed (error : DownloadError)
  | failing (error : DownloadError)
  | removing
  | finishing (cancelled : Bool)
  deriving DecidableEq, Repr

structure Attempt where
  workerId : Nat
  taskId : Nat
  task : Task
  stage : Stage
  deriving DecidableEq, Repr

/-- A pass over the journals, with what it has read about the journal at hand
and the journals after it. -/
inductive Pass where
  | idle
  | listing (rest : List PublishJournal)
  | vanished (journal : PublishJournal) (rest : List PublishJournal)
  | read (journal : PublishJournal) (task : Task) (rest : List PublishJournal)
  | looked (journal : PublishJournal) (task : Task)
      (target : Option FileIdentity) (rest : List PublishJournal)
  | absent (journal : PublishJournal) (task : Task) (rest : List PublishJournal)
  | unpublished (journal : PublishJournal) (task : Task)
      (rest : List PublishJournal)
  | locked (journal : PublishJournal) (task : Task) (rest : List PublishJournal)
  | confirmed (journal : PublishJournal) (task : Task)
      (rest : List PublishJournal)
  | removing (journal : PublishJournal) (rest : List PublishJournal)
  | failing (journal : PublishJournal) (target : Option FileIdentity)
      (rest : List PublishJournal)
  deriving DecidableEq, Repr

inductive Route where
  | pause
  | resume
  | cancel
  | retry
  | delete
  deriving DecidableEq, Repr

/-- A request, with the task it loaded. -/
inductive Request where
  | idle
  | loaded (route : Route) (taskId : Nat) (task : Task)
  | isolating (taskId : Nat)
  | unlinking (route : Route) (taskId : Nat)
  | unlinked (route : Route) (taskId : Nat)
  | answered
  deriving DecidableEq, Repr

structure State where
  now : Nat
  db : Db
  /-- By task: the name of a partial file holds the task's id. -/
  partialFile : Nat → Option PartialFile
  targetFile : Nat → Option TargetFile
  attempt : Nat → Option Attempt
  pass : Nat → Pass
  request : Nat → Request
  accepted : Nat → List Control

def State.initial (targetPath storagePool : Nat → Nat) : State where
  now := 0
  db := .empty targetPath storagePool
  partialFile _ := none
  targetFile _ := none
  attempt _ := none
  pass _ := .idle
  request _ := .idle
  accepted _ := []

def State.exec (s : State) (st : Statement) : Option State :=
  (st.exec s.now s.db).map fun db => { s with db := db }

def State.setPartial (s : State) (taskId : Nat) (p : Option PartialFile) : State :=
  { s with partialFile := Function.update s.partialFile taskId p }

def State.setTarget (s : State) (path : Nat) (f : Option TargetFile) : State :=
  { s with targetFile := Function.update s.targetFile path f }

def State.setAttempt (s : State) (a : Nat) (x : Option Attempt) : State :=
  { s with attempt := Function.update s.attempt a x }

def State.setPass (s : State) (workerId : Nat) (p : Pass) : State :=
  { s with pass := Function.update s.pass workerId p }

def State.setRequest (s : State) (r : Nat) (q : Request) : State :=
  { s with request := Function.update s.request r q }

def PartialFile.unlock (holder : Holder) (p : PartialFile) : PartialFile :=
  if p.lock = some holder then { p with lock := none } else p

def State.unlock (s : State) (taskId : Nat) (holder : Holder) : State :=
  s.setPartial taskId ((s.partialFile taskId).map (·.unlock holder))

def State.targetIdentity (s : State) (taskId : Nat) : Option FileIdentity :=
  (s.targetFile (s.db.targetPath taskId)).map (·.identity)

def State.partialIdentity (s : State) (taskId : Nat) : Option FileIdentity :=
  (s.partialFile taskId).map (·.identity)

def State.controlRequested (s : State) (taskId : Nat) : Option Control :=
  (s.db.entry taskId).task.bind (·.controlRequested)

/-! ## An attempt -/

inductive AttemptAction where
  | checkTarget
  | lockPartial (device inode : Nat)
  | openPartial (truncate : Bool) (device inode : Nat)
  | resize (size : Nat)
  | owner (st : OwnerStatement)
  | readControl (ok : Bool)
  | prepare (sha256 : Option String)
  | beginPublish
  | drop
  | publish
  | finalize (mode : Mode)
  | fail (error : DownloadError)
  | removePartial (ok : Bool)
  | finishControl
  | failOrRetry (maxAutoRetries retryDelay : Nat)
  | stop
  deriving DecidableEq, Repr

/-- Inside `run_task`. -/
def Stage.inRun : Stage → Bool
  | .started | .probing | .transferring | .prepared _ | .publishing _
  | .renamed _ | .finalized => true
  | _ => false

def State.toStage (s : State) (a : Nat) (x : Attempt) (stage : Stage) : State :=
  s.setAttempt a (some { x with stage := stage })

/-- `run_task` is over, and the lock of the partial file with it. -/
def State.leave (s : State) (a : Nat) (x : Attempt) (stage : Stage) : State :=
  (s.unlock x.taskId (.attempt a)).toStage a x stage

def leaseLost : DownloadError :=
  ⟨.internal, "download task lease or control ownership was lost", false⟩

def leaseNotRenewed : DownloadError :=
  ⟨.database, "download task lease could not be renewed", true⟩

def targetExists : DownloadError :=
  ⟨.targetConflict, "download target already exists", false⟩

/-- `interrupted_error`. -/
def interruptedError (control : Option Control) : DownloadError :=
  ⟨.internal,
    if control = some .cancel then "download cancelled" else "download paused",
    false⟩

/-- The error `run_task` ends with when a statement finds the task not owned. -/
def refused (control : Option Control) (owned : Bool) :
    OwnerStatement → DownloadError
  | .extendLease => leaseNotRenewed
  | .progress _ | .renewPhase _ | .setActualChecksum _ | .checkpointSegment _ =>
      interruptedError control
  | .resetTransfer | .replaceSegments _ => leaseLost
  | .reserveSpace .. =>
      if owned then
        ⟨.diskSpace, "not enough unreserved disk space for download", false⟩
      else leaseLost

/-- The end of `handle_task` for a control request that was read. -/
def afterControl : Control → Stage
  | .cancel => .removing
  | .pause => .finishing false

def Attempt.journal (x : Attempt) (identity : FileIdentity)
    (sha256 : Option String) : PublishJournal where
  taskId := x.taskId
  operationId := .download x.taskId
  workerId := x.workerId
  device := identity.device
  inode := identity.inode
  sizeBytes := identity.size
  sha256 := sha256

def stepAttempt (s : State) (a : Nat) (x : Attempt) : AttemptAction → Option State
  | .checkTarget =>
      match x.stage with
      | .started =>
          if (s.targetIdentity x.taskId).isSome then
            some (s.toStage a x (.failed targetExists))
          else some (s.toStage a x .probing)
      | _ => none
  | .lockPartial device inode =>
      match x.stage, s.partialFile x.taskId with
      | .probing, none =>
          some ((s.setPartial x.taskId
            (some ⟨⟨device, inode, 0⟩, some (.attempt a)⟩)).toStage a x .transferring)
      | .probing, some p =>
          if p.lock = none then
            some ((s.setPartial x.taskId
              (some { p with lock := some (.attempt a) })).toStage a x .transferring)
          else
            some (s.toStage a x (.failed ⟨.storage,
              "download partial file is already owned by another worker", true⟩))
      | _, _ => none
  | .openPartial truncate device inode =>
      match x.stage, s.partialFile x.taskId with
      | .transferring, none =>
          some (s.setPartial x.taskId (some ⟨⟨device, inode, 0⟩, none⟩))
      | .transferring, some p =>
          some (s.setPartial x.taskId (some
            (if truncate then { p with identity := { p.identity with size := 0 } }
            else p)))
      | _, _ => none
  | .resize size =>
      match x.stage, s.partialFile x.taskId with
      | .transferring, some p =>
          some (s.setPartial x.taskId
            (some { p with identity := { p.identity with size := size } }))
      | _, _ => none
  | .owner st =>
      -- The heartbeat renews the lease in all of `run_task`.
      if x.stage = .transferring ∨ st = .extendLease ∧ x.stage.inRun then
        match s.exec (.owner x.workerId x.taskId st) with
        | some s' => some s'
        | none =>
            some (s.leave a x (.failed (refused (s.controlRequested x.taskId)
              ((s.db.entry x.taskId).owned x.workerId).isSome st)))
      else none
  | .readControl ok =>
      match x.stage, s.controlRequested x.taskId with
      | .transferring, some c | .prepared _, some c =>
          some (s.leave a x (afterControl c))
      | .failed error, some c =>
          some (s.toStage a x (if ok then afterControl c else .failing error))
      | .failed error, none => some (s.toStage a x (.failing error))
      | _, _ => none
  | .prepare sha256 =>
      match x.stage, s.partialFile x.taskId with
      | .transferring, some p =>
          some (s.toStage a x (.prepared (x.journal p.identity sha256)))
      | _, _ => none
  | .beginPublish =>
      match x.stage with
      | .prepared journal =>
          match s.exec (.beginPublish journal) with
          | some s' => some (s'.toStage a x (.publishing journal))
          | none =>
              some (s.leave a x (.failed ⟨.internal,
                "download task lease was lost before publication", false⟩))
      | .dropped journal =>
          some (((s.exec (.beginPublish journal)).getD s).toStage a x
            (.failed leaseNotRenewed))
      | _ => none
  | .drop =>
      match x.stage with
      | .prepared journal => some (s.leave a x (.dropped journal))
      | _ => none
  | .publish =>
      match x.stage with
      | .publishing journal =>
          if (s.targetIdentity x.taskId).isSome then
            some (s.leave a x (.failed targetExists))
          else
            match s.partialFile x.taskId with
            | none =>
                some (s.leave a x (.failed ⟨.storage,
                  "No such file or directory (os error 2)", false⟩))
            | some p =>
                some (((s.setTarget (s.db.targetPath x.taskId)
                  (some ⟨p.identity, some journal⟩)).setPartial x.taskId
                    none).toStage a x (.renamed journal))
      | _ => none
  | .finalize mode =>
      match x.stage with
      | .renamed journal =>
          match s.exec (.finalizePublish journal mode) with
          | some s' => some (s'.toStage a x .finalized)
          | none =>
              some (s.leave a x (.failed ⟨.database,
                "download publish journal no longer matches the finishing worker",
                true⟩))
      | _ => none
  | .fail error =>
      if x.stage.inRun then some (s.leave a x (.failed error)) else none
  | .removePartial ok =>
      match x.stage with
      | .removing =>
          some ((if ok then s.setPartial x.taskId none else s).toStage a x
            (.finishing true))
      | _ => none
  | .finishControl =>
      match x.stage with
      | .finishing cancelled =>
          some (((s.exec (.finishControl x.workerId x.taskId cancelled)).getD
            s).setAttempt a none)
      | _ => none
  | .failOrRetry maxAutoRetries retryDelay =>
      match x.stage with
      | .failing error =>
          let delay :=
            if error.retryable ∧ x.task.retryCount < maxAutoRetries then
              some retryDelay
            else none
          some (((s.exec (.failOrRetry x.workerId x.taskId x.task.retryCount error
            maxAutoRetries delay)).getD s).setAttempt a none)
      | _ => none
  | .stop => some ((s.unlock x.taskId (.attempt a)).setAttempt a none)

/-! ## A pass of `recover_publish_journals` -/

inductive PassAction where
  | start
  | next
  | skip
  | readTarget
  | finalize
  | checkLease
  | readPartial
  | lock
  | recheck
  | recoverUnpublished
  | removePartial (ok : Bool)
  | failRecovery
  | stop
  deriving DecidableEq, Repr

def Db.journals (db : Db) : List PublishJournal :=
  (List.range db.nextId).filterMap fun t => (db.entry t).journal

/-- The task whose partial file a pass has locked. -/
def Pass.locks : Pass → Option Nat
  | .locked journal _ _ | .confirmed journal _ _ | .removing journal _ =>
      some journal.taskId
  | _ => none

/-- The pass goes on without the lock it may hold. -/
def State.release (s : State) (workerId : Nat) (p : Pass) : State :=
  match (s.pass workerId).locks with
  | some taskId => (s.unlock taskId (.pass workerId)).setPass workerId p
  | none => s.setPass workerId p

def stepPass (s : State) (w : Nat) : PassAction → Option State
  | .start =>
      match s.pass w with
      | .idle => some (s.setPass w (.listing s.db.journals))
      | _ => none
  | .next =>
      match s.pass w with
      | .listing [] => some (s.setPass w .idle)
      | .listing (journal :: rest) =>
          match (s.db.entry journal.taskId).task with
          | none => some (s.setPass w (.vanished journal rest))
          | some task => some (s.setPass w (.read journal task rest))
      | _ => none
  | .skip =>
      -- The storage of the task cannot be resolved.
      match s.pass w with
      | .read _ _ rest => some (s.setPass w (.listing rest))
      | _ => none
  | .readTarget =>
      match s.pass w with
      | .read journal task rest =>
          some (s.setPass w
            (.looked journal task (s.targetIdentity journal.taskId) rest))
      | _ => none
  | .finalize =>
      match s.pass w with
      | .looked journal task target rest =>
          if target = some journal.identity then
            match s.exec
                (.finalizePublish journal (task.downloadMode.getD .single)) with
            | some s' => some (s'.setPass w (.listing rest))
            | none => some (s.setPass w .idle)
          else none
      | _ => none
  | .checkLease =>
      match s.pass w with
      | .looked journal task target rest =>
          if target = some journal.identity then none
          else if task.live s.now then some (s.setPass w (.listing rest))
          else if target = none then some (s.setPass w (.absent journal task rest))
          else some (s.setPass w (.failing journal target rest))
      | _ => none
  | .readPartial =>
      match s.pass w with
      | .absent journal task rest =>
          if s.partialIdentity journal.taskId = some journal.identity then
            some (s.setPass w (.unpublished journal task rest))
          else some (s.setPass w (.failing journal none rest))
      | _ => none
  | .lock =>
      match s.pass w with
      | .unpublished journal task rest =>
          match s.partialFile journal.taskId with
          | none => some (s.setPass w (.listing rest))
          | some p =>
              if p.lock = none then
                some ((s.setPartial journal.taskId
                  (some { p with lock := some (.pass w) })).setPass w
                    (.locked journal task rest))
              else some (s.setPass w (.listing rest))
      | _ => none
  | .recheck =>
      match s.pass w with
      | .locked journal task rest =>
          if s.partialIdentity journal.taskId = some journal.identity then
            some (s.setPass w (.confirmed journal task rest))
          else some (s.release w (.listing rest))
      | _ => none
  | .recoverUnpublished =>
      match s.pass w with
      | .confirmed journal task rest =>
          match s.exec (.recoverUnpublished journal.taskId) with
          | some s' =>
              if task.controlRequested = some .cancel then
                some (s'.setPass w (.removing journal rest))
              else some (s'.release w (.listing rest))
          | none => some (s.release w (.listing rest))
      | _ => none
  | .removePartial ok =>
      match s.pass w with
      | .removing journal rest =>
          if ok then
            some ((s.setPartial journal.taskId none).setPass w (.listing rest))
          else some (s.release w .idle)
      | _ => none
  | .failRecovery =>
      match s.pass w with
      | .vanished journal rest =>
          some (((s.exec (.failRecovery journal.taskId .internal
            "download task disappeared during publication")).getD s).setPass w
              (.listing rest))
      | .failing journal _ rest =>
          some (((s.exec (.failRecovery journal.taskId .targetConflict
            "download publication state conflicts with an existing file")).getD
              s).setPass w (.listing rest))
      | _ => none
  | .stop => some (s.release w .idle)

/-! ## A request -/

inductive RequestAction where
  | receive (route : Route) (taskId : Nat)
  | look
  | write
  | unlink (ok : Bool)
  deriving DecidableEq, Repr

/-- `resetProgress` of the retry route. -/
def Task.resetProgress (task : Task) : Bool :=
  task.status = .cancelled ∨ task.errorCode = some .checksumMismatch

/-- Where `delete` goes on with a task of this status. -/
def afterIsolation (taskId : Nat) : Status → Request
  | .completed => .unlinked .delete taskId
  | .cancelled => .unlinking .delete taskId
  | _ => .answered

/-- The write a request makes next. -/
def Request.call : Request → Option Statement
  | .loaded .pause taskId task =>
      some (if task.status = .running then .requestDownloadTaskControl taskId .pause
        else .transitionDownloadTask taskId [.queued] .paused false)
  | .loaded .resume taskId _ =>
      some (.transitionDownloadTask taskId [.paused] .queued false)
  | .loaded .cancel taskId task =>
      some (if task.status = .running then .requestDownloadTaskControl taskId .cancel
        else .transitionDownloadTask taskId [.queued, .running, .paused] .cancelled
          false)
  | .loaded .retry taskId task =>
      if task.resetProgress then none
      else some (.transitionDownloadTask taskId [.failed, .cancelled] .queued false)
  | .loaded .delete taskId task =>
      if task.status ∈ [.running, .completed, .cancelled] then none
      else some (.transitionDownloadTask taskId [.queued, .paused, .failed] .cancelled
        false)
  | .unlinked .retry taskId =>
      some (.transitionDownloadTask taskId [.failed, .cancelled] .queued true)
  | .unlinked .delete taskId => some (.deleteDownloadTask taskId)
  | _ => none

/-- Where a request goes on after its write, which changed a row or did not. -/
def Request.next (changed : Bool) : Request → Request
  | .loaded .cancel taskId task =>
      if changed ∧ task.status ≠ .running then .unlinking .cancel taskId
      else .answered
  | .loaded .delete taskId _ =>
      if changed then .unlinking .delete taskId else .isolating taskId
  | _ => .answered

/-- What the user is told was accepted when the write changed a row. A cancel
that was loaded before the task was claimed takes it out of `running` without
a control request. -/
def Request.accepts : Request → Option Control
  | .loaded .pause _ task => if task.status = .running then some .pause else none
  | .loaded .cancel _ _ => some .cancel
  | _ => none

def Request.taskId : Request → Nat
  | .loaded _ taskId _ | .isolating taskId | .unlinking _ taskId
  | .unlinked _ taskId => taskId
  | .idle | .answered => 0

def State.accept (s : State) (q : Request) : State :=
  match q.accepts with
  | some c =>
      { s with
        accepted := Function.update s.accepted q.taskId
          (s.accepted q.taskId ++ [c]) }
  | none => s

def stepRequest (s : State) (r : Nat) : RequestAction → Option State
  | .receive route taskId =>
      match s.request r with
      | .idle =>
          match (s.db.entry taskId).task with
          | none => some (s.setRequest r .answered)
          | some task => some (s.setRequest r (.loaded route taskId task))
      | _ => none
  | .look =>
      match s.request r with
      | .loaded .retry taskId task =>
          if task.resetProgress then some (s.setRequest r (.unlinking .retry taskId))
          else none
      | .loaded .delete taskId task =>
          if task.status ∈ [.running, .completed, .cancelled] then
            some (s.setRequest r (afterIsolation taskId task.status))
          else none
      | .isolating taskId =>
          match (s.db.entry taskId).task with
          | none => some (s.setRequest r .answered)
          | some task => some (s.setRequest r (afterIsolation taskId task.status))
      | _ => none
  | .write =>
      match (s.request r).call with
      | some st =>
          match s.exec st with
          | some s' =>
              some ((s'.accept (s.request r)).setRequest r ((s.request r).next true))
          | none => some (s.setRequest r ((s.request r).next false))
      | none => none
  | .unlink ok =>
      match s.request r with
      | .unlinking route taskId =>
          if ok then
            some ((s.setPartial taskId none).setRequest r
              (if route = .cancel then .answered else .unlinked route taskId))
          else some (s.setRequest r .answered)
      | _ => none

/-! ## The machine -/

inductive Action where
  | claim (a workerId taskId : Nat)
  | attempt (a : Nat) (action : AttemptAction)
  | pass (workerId : Nat) (action : PassAction)
  | recoverExpired (workerId : Nat)
  | requeueOwned (workerId : Nat)
  | request (r : Nat) (action : RequestAction)
  | create (expectedSha256 : Option String)
  | tick (milliseconds : Nat)
  | createTarget (path : Nat) (identity : FileIdentity)
  | removeTarget (path : Nat)
  deriving DecidableEq, Repr

def step (s : State) : Action → Option State
  | .claim a workerId taskId =>
      if s.attempt a = none ∧ s.pass workerId = .idle then
        (s.exec (.claim workerId taskId)).bind fun s' =>
          (s'.db.entry taskId).task.map fun task =>
            { s' with accepted := Function.update s'.accepted taskId [] }.setAttempt a
              (some ⟨workerId, taskId, task, .started⟩)
      else none
  | .attempt a action =>
      match s.attempt a with
      | some x => stepAttempt s a x action
      | none => none
  | .pass workerId action => stepPass s workerId action
  | .recoverExpired workerId =>
      if s.pass workerId = .idle then s.exec .recoverExpired else none
  | .requeueOwned workerId =>
      if s.pass workerId = .idle then s.exec (.requeueOwned workerId) else none
  | .request r action => stepRequest s r action
  | .create expectedSha256 => s.exec (.createDownloadTask expectedSha256)
  | .tick milliseconds => some { s with now := s.now + milliseconds }
  | .createTarget path identity =>
      if s.targetFile path = none then
        some (s.setTarget path (some ⟨identity, none⟩))
      else none
  | .removeTarget path => some (s.setTarget path none)

end Zos.Downloader
