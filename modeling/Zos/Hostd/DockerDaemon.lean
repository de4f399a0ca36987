import Zos.Hostd.Error

/-!
# The configuration of the Docker daemon

`update` of `apps/hostd/src/docker_daemon.rs` over the files of
`docker_daemon/store.rs`: the configuration, the baseline to go back to and the
transaction that says there is one. A step is one write, one removal or one restart,
and the process may stop between any two of them. `docker_lock` keeps updates apart;
reads take no lock and write nothing. Nobody else edits the files, so what an update
has read stays as it was.

`lastGood` is the configuration dockerd was last restarted with successfully, and
`goodAtCall` is what that was when the update was called.
-/

namespace Zos.Hostd.DockerDaemon

/-- What the code takes from its libraries: `revision`, the SHA-256 of a file's
presence and content, and whether a text is JSON, and if so an object. -/
structure Env where
  revision : Bool → String → String
  isObject : String → Option Bool

structure DockerUpdateInput where
  content : String
  expectedRevision : String
  restart : Bool
  confirmed : Bool
  deriving DecidableEq, Repr

structure DockerTransaction where
  baselineExists : Bool
  baselineRevision : String
  pendingRevision : String
  deriving DecidableEq, Repr

structure DockerConfigFile where
  content : String
  revision : String
  fileExists : Bool
  deriving DecidableEq, Repr

structure DockerSnapshot where
  content : String
  revision : String
  fileExists : Bool
  restartPending : Bool
  deriving DecidableEq, Repr

inductive RollbackStatus where
  | notRequired
  | succeeded
  | failed
  deriving DecidableEq, Repr

structure DockerUpdateResult where
  snapshot : DockerSnapshot
  restarted : Bool
  rollback : RollbackStatus
  error : Option String
  deriving DecidableEq, Repr

/-- What an update returns; an error may carry a result as its details. -/
inductive Reply where
  | ok (result : DockerUpdateResult)
  | error (error : HostdError) (details : Option DockerUpdateResult)
  deriving DecidableEq, Repr

def Reply.rollback : Reply → Option RollbackStatus
  | .ok result => some result.rollback
  | .error _ details => details.map (·.rollback)

structure Disk where
  config : Option String
  baseline : Option String
  transaction : Option DockerTransaction
  deriving DecidableEq, Repr

def maxConfigBytes : Nat := 256 * 1024

section

variable (env : Env)

def validateInput (input : DockerUpdateInput) : Except HostdError Unit :=
  if maxConfigBytes < input.content.utf8ByteSize then
    .error (.validation "Docker daemon configuration exceeds 256 KiB")
  else if input.expectedRevision.utf8ByteSize ≠ 64 ∨
      !input.expectedRevision.toList.all fun c => c.isDigit || ('a' ≤ c && c ≤ 'f') then
    .error (.validation "Docker daemon configuration revision is invalid")
  else if input.restart ∧ !input.confirmed then
    .error (.validation "Docker restart confirmation is required")
  else
    match env.isObject input.content with
    | none => .error (.validation "Docker daemon configuration is not valid JSON")
    | some false => .error (.validation "Docker daemon configuration must be a JSON object")
    | some true => .ok ()

def readConfigFile (disk : Disk) : DockerConfigFile :=
  match disk.config with
  | some content => ⟨content, env.revision true content, true⟩
  | none => ⟨"\x7b\n\x7d\n", env.revision false "", false⟩

def readSnapshot (disk : Disk) : DockerSnapshot :=
  let current := readConfigFile env disk
  ⟨current.content, current.revision, current.fileExists, disk.transaction.isSome⟩

end

def conflict (action : String) : HostdError :=
  .conflict ("Docker daemon configuration changed; reload before " ++ action)

/-! ## Program points -/

/-- Why the transaction is cleared: the restart succeeded, or the one after the
baseline was restored. -/
inductive Cleared where
  | restarted
  | restored
  deriving DecidableEq, Repr

inductive Pc where
  | idle
  /-- `create_baseline`: the baseline file, then the transaction. -/
  | baseline (input : DockerUpdateInput) (current : DockerConfigFile)
  | record (input : DockerUpdateInput) (current : DockerConfigFile)
  | save (input : DockerUpdateInput) (transaction : DockerTransaction)
  | pending (input : DockerUpdateInput) (transaction : DockerTransaction)
  | answer (input : DockerUpdateInput)
  | restart (input : DockerUpdateInput) (transaction : DockerTransaction)
  /-- `rollback_config`. -/
  | restore (transaction : DockerTransaction)
  | restartRestored
  /-- `clear_transaction`: the transaction, then the baseline. -/
  | clearTransaction (why : Cleared)
  | clearBaseline (why : Cleared)
  deriving DecidableEq, Repr

structure State where
  disk : Disk
  pc : Pc
  reply : Option Reply
  lastGood : Option String
  goodAtCall : Option String
  deriving DecidableEq, Repr

inductive Action where
  | read
  | update (input : DockerUpdateInput) (available accepted : Bool)
  /-- The next write or removal. -/
  | proceed
  /-- `systemctl restart docker.service`. -/
  | restart (succeeds : Bool)
  | crash
  deriving DecidableEq, Repr

def State.finish (s : State) (reply : Reply) : State :=
  { s with pc := .idle, reply := some reply }

section

variable (env : Env)

/-- After the last write before the restart. -/
def saved (input : DockerUpdateInput) (transaction : DockerTransaction) : Pc :=
  if input.restart then .restart input transaction else .answer input

/-- After `create_baseline`, or with the transaction that was there. -/
def withTransaction (input : DockerUpdateInput) (current : DockerConfigFile)
    (transaction : DockerTransaction) : Pc :=
  let nextRevision := env.revision true input.content
  if current.revision ≠ nextRevision then .save input transaction
  else if input.restart ∧ transaction.pendingRevision ≠ nextRevision then
    .pending input { transaction with pendingRevision := nextRevision }
  else saved input transaction

/-- `update` up to its first write. -/
def begin (s : State) (input : DockerUpdateInput) (available accepted : Bool) : State :=
  let s := { s with goodAtCall := s.lastGood, reply := none }
  match validateInput env input with
  | .error error => s.finish (.error error none)
  | .ok () =>
      let current := readConfigFile env s.disk
      if current.revision ≠ input.expectedRevision then s.finish (.error (conflict "saving") none)
      else if !available then
        s.finish (.error (.unavailable "Docker daemon is not installed or unavailable") none)
      else if !accepted then
        s.finish (.error (.validation "Docker daemon rejected the configuration") none)
      else
        match s.disk.transaction with
        | some transaction => { s with pc := withTransaction env input current transaction }
        | none =>
            if current.revision ≠ env.revision true input.content ∨ input.restart then
              { s with pc := .baseline input current }
            else { s with pc := .answer input }

def rollbackMessage : RollbackStatus → String
  | .succeeded => "Docker restart failed; the last applied configuration was restored"
  | _ => "Docker restart and automatic rollback failed; manual recovery is required"

/-- The end of an update whose restart failed. -/
def State.rolledBack (s : State) (rollback : RollbackStatus) : State :=
  let message := rollbackMessage rollback
  s.finish (.error ⟨502, .restartFailed, message⟩
    (some ⟨readSnapshot env s.disk, false, rollback, some message⟩))

def State.write (s : State) (disk : Disk) (pc : Pc) : State :=
  { s with disk := disk, pc := pc }

/-- `rollback_config` up to the restart; where it fails, nothing was written. -/
def restoreBaseline (disk : Disk) (transaction : DockerTransaction) : Option Disk :=
  if transaction.baselineExists then
    disk.baseline.bind fun baseline =>
      if env.revision true baseline = transaction.baselineRevision ∧
          (readConfigFile env disk).revision = transaction.pendingRevision then
        some { disk with config := some baseline }
      else none
  else if (readConfigFile env disk).revision = transaction.pendingRevision then
    some { disk with config := none }
  else none

def proceed (s : State) : Option State :=
  match s.pc with
  | .baseline input current =>
      some (s.write { s.disk with
        baseline := if current.fileExists then some current.content else none }
        (.record input current))
  | .record input current =>
      let transaction := ⟨current.fileExists, current.revision, current.revision⟩
      some (s.write { s.disk with transaction := some transaction }
        (withTransaction env input current transaction))
  | .save input transaction =>
      -- the check of `atomic_write_checked`, before the rename
      if (readConfigFile env s.disk).revision ≠ input.expectedRevision then
        some (s.finish (.error (conflict "saving") none))
      else
        some (s.write { s.disk with config := some input.content } (.pending input
          { transaction with pendingRevision := env.revision true input.content }))
  | .pending input transaction =>
      some (s.write { s.disk with transaction := some transaction } (saved input transaction))
  | .answer input =>
      let snapshot := readSnapshot env s.disk
      if snapshot.revision ≠ env.revision true input.content then
        some (s.finish (.error (conflict "saving") none))
      else some (s.finish (.ok ⟨snapshot, false, .notRequired, none⟩))
  | .restore transaction =>
      match restoreBaseline env s.disk transaction with
      | some disk => some (s.write disk .restartRestored)
      | none => some (s.rolledBack env .failed)
  | .clearTransaction why =>
      some (s.write { s.disk with transaction := none } (.clearBaseline why))
  | .clearBaseline why =>
      let s := s.write { s.disk with baseline := none } .idle
      match why with
      | .restarted =>
          some (s.finish (.ok ⟨readSnapshot env s.disk, true, .notRequired, none⟩))
      | .restored => some (s.rolledBack env .succeeded)
  | .idle | .restart _ _ | .restartRestored => none

def restart (s : State) (succeeds : Bool) : Option State :=
  match s.pc with
  | .restart input transaction =>
      if (readConfigFile env s.disk).revision ≠ env.revision true input.content then
        some (s.finish (.error (conflict "restarting") none))
      else if succeeds then
        some { s with pc := .clearTransaction .restarted, lastGood := s.disk.config }
      else some { s with pc := .restore transaction }
  | .restartRestored =>
      if succeeds then
        some { s with pc := .clearTransaction .restored, lastGood := s.disk.config }
      else some (s.rolledBack env .failed)
  | _ => none

def step (s : State) : Action → Option State
  | .read => some s
  | .update input available accepted =>
      if s.pc = .idle then some (begin env s input available accepted) else none
  | .proceed => proceed env s
  | .restart succeeds => restart env s succeeds
  | .crash => some { s with pc := .idle, reply := none }

end

/-- dockerd runs with the file that is there, and no change is pending. -/
def Initial (s : State) : Prop :=
  s.pc = .idle ∧ s.reply = none ∧ s.disk.transaction = none ∧ s.lastGood = s.disk.config

end Zos.Hostd.DockerDaemon
