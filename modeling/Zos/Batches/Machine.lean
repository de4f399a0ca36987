import Zos.Batches.Db
import Zos.Lib.Js
import Zos.Lib.Reach

/-!
# Batch submissions, the runner and the cancel route

`POST /api/files/batches` checks the list of paths it is given, turns each one
into the path of the file it names and creates a batch of those. What the file
system answers on the way is part of the request here.

The cancel route of a job is two transactions with nothing that ties them
together: a process that stops in between has cancelled the job and left its
items. A restart always begins with `recoverInterruptedFileBatches`.
-/

namespace Zos.Batches

open Zos.Lib (trim)

/-! ## The batch route -/

inductive RouteError where
  | noSources
  | notUnique
  | storagePoolRoot
  | symlink
  /-- Thrown or answered while a path was being resolved. -/
  | unresolved (message : String)
  | sameTarget (targetPath : String)
  | create (error : CreateError)
  deriving DecidableEq, Repr

def RouteError.message : RouteError → String
  | .noSources => "At least one source path is required"
  | .notUnique => "Source paths must be unique"
  | .storagePoolRoot => "Cannot mutate the storage pool root"
  | .symlink => "Refusing to mutate through a symlink"
  | .unresolved message => message
  | .sameTarget _ => "Multiple selected files resolve to the same target"
  | .create error => error.message

def toRootRelative (relative : String) : String :=
  if relative = "" then "." else relative

/-- What the file system answers while a request is checked. -/
structure Answers where
  /-- `path.relative` from the root to the real path of a requested source. -/
  source : String → Except RouteError String
  isSymbolicLink : String → Bool
  /-- The target path that `buildTransferProposal` returns for it. -/
  target : String → Except RouteError String

structure BatchRequest where
  rootId : String
  storagePoolId : String
  mountpointPath : String
  operation : Operation
  targetDirectory : Option String
  sourcePaths : List String

/-- The path of the source that a request names. -/
def getMutableSource (request : BatchRequest) (answers : Answers) (requestedPath : String) :
    Except RouteError String := do
  let relativePath := toRootRelative (← answers.source requestedPath)
  if relativePath = "." ∨ relativePath = request.mountpointPath then
    .error .storagePoolRoot
  else if answers.isSymbolicLink requestedPath then .error .symlink
  else .ok relativePath

/-- The loop over the sources; `targetPaths` are the targets taken so far. -/
def batchItems (request : BatchRequest) (answers : Answers) (targetPaths : List String) :
    List String → Except RouteError (List ItemInput)
  | [] => .ok []
  | requestedSource :: rest => do
      let sourcePath ← getMutableSource request answers requestedSource
      match request.operation with
      | .trash =>
          return ⟨sourcePath, none, none⟩ :: (← batchItems request answers targetPaths rest)
      | .move =>
          let targetPath ← answers.target requestedSource
          if targetPaths.contains targetPath then .error (.sameTarget targetPath)
          else
            return ⟨sourcePath, some targetPath, none⟩ ::
              (← batchItems request answers (targetPath :: targetPaths) rest)

def batchInput (request : BatchRequest) (answers : Answers) :
    Except RouteError BatchInput := do
  if request.sourcePaths.isEmpty || request.sourcePaths.any (trim · == "") then
    .error .noSources
  else if ¬ (request.sourcePaths.map trim).Nodup then .error .notUnique
  else
    return {
      rootId := request.rootId
      storagePoolId := request.storagePoolId
      operation := request.operation
      targetDirectory := request.targetDirectory
      items := ← batchItems request answers [] (request.sourcePaths.map trim) }

def submitBatch (db : Db) (request : BatchRequest) (answers : Answers)
    (uuid : Nat → String) : Except RouteError Db := do
  (createFileBatch db (← batchInput request answers) uuid).mapError .create

/-! ## Runs -/

structure State where
  db : Db
  /-- The cancel requests between their two transactions, by batch. -/
  cancels : List Nat
  deriving DecidableEq

inductive Action where
  | create (input : BatchInput) (uuid : Nat → String)
  | submit (request : BatchRequest) (answers : Answers) (uuid : Nat → String)
  | claim (batch ordinal : Nat)
  | finish (batch ordinal : Nat) (outcome : Outcome) (error : Option String) (now : Nat)
  /-- `updateJobStatus` of the cancel route, and its second transaction. -/
  | cancelJob (batch : Nat)
  | cancelItems (batch now : Nat)
  /-- The process stops, whatever it was doing, and is started again. -/
  | restart

def Initial (s : State) : Prop := s.db = [] ∧ s.cancels = []

def step (s : State) : Action → Option State
  | .create input uuid =>
      (createFileBatch s.db input uuid).toOption.map fun db => { s with db := db }
  | .submit request answers uuid =>
      (submitBatch s.db request answers uuid).toOption.map fun db => { s with db := db }
  | .claim batch ordinal =>
      (claimNextFileBatchItem s.db batch ordinal).map fun db => { s with db := db }
  | .finish batch ordinal outcome error now =>
      (finishFileBatchItem s.db batch ordinal outcome error now).map fun db =>
        { s with db := db }
  | .cancelJob batch => do
      let b ← s.db[batch]?
      let b ← b.cancelJob
      return ⟨s.db.set batch b, batch :: s.cancels⟩
  | .cancelItems batch now =>
      if batch ∈ s.cancels then
        some ⟨cancelQueuedFileBatchItems s.db batch now, s.cancels.erase batch⟩
      else none
  | .restart => some ⟨recoverInterruptedFileBatches s.db, []⟩

end Zos.Batches
