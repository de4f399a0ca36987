import Zos.Photostaff.Db

/-!
# What the photo worker does with errors

`process_entries` and `process_entry` of `apps/photostaff/src/worker.rs`. An error is weighed by
its retryable flag: it ends the whole job, or it is put down to one entry.

What the calls to storage and cache answer is given. The database answers every call, and nobody
cancels the worker.
-/

namespace Zos.Photostaff.Worker

inductive ErrorCode where
  | photostaffStorageUnavailable
  | sourceChanged
  | invalidPath
  | unsupportedMedia
  | corruptMedia
  | sizeLimit
  | diskSpace
  | toolUnavailable
  | commandTimeout
  | commandFailed
  | publishConflict
  | permissionDenied
  | database
  | internal
  deriving DecidableEq, Repr

structure PhotostaffError where
  code : ErrorCode
  message : String
  retryable : Bool
  deriving DecidableEq, Repr

def sourceChanged (message : String) : PhotostaffError := ⟨.sourceChanged, message, false⟩

/-! ## Entries -/

/-- What the calls of `process_entry` answer for one media entry. There is no sidecar to open when
`sidecar_for` finds none, or more than one. -/
structure Attempt where
  path : String
  openSource : Except PhotostaffError Unit
  openSidecar : Option (Except PhotostaffError Unit)
  /-- `mark_current_if_unchanged`. -/
  unchanged : Bool
  cacheAvailableBytes : Except PhotostaffError Unit
  reserveSpace : Except PhotostaffError Unit
  cacheLock : Except PhotostaffError Unit
  processMedia : Except PhotostaffError Unit
  verifySources : Except PhotostaffError Unit
  publishDerivatives : Except PhotostaffError Unit
  /-- The second `verify_sources`, after the publication. -/
  verifyPublished : Except PhotostaffError Unit

/-- The `async` block, between `reserve_space` and `release_space`. -/
def Attempt.publish (entry : Attempt) : Except PhotostaffError Unit := do
  entry.cacheLock
  entry.processMedia
  entry.verifySources
  entry.publishDerivatives
  entry.verifyPublished

/-- The status the entry is given, or the error that ends the job. -/
def processEntry (entry : Attempt) : Except PhotostaffError EntryStatus :=
  match entry.openSource with
  | .error error => if error.retryable then .error error else .ok .failed
  | .ok () => do
      entry.openSidecar.getD (.ok ())
      if entry.unchanged then
        return .completed
      entry.cacheAvailableBytes
      entry.reserveSpace
      match entry.publish with
      | .ok () => return .completed
      | .error error => if error.retryable then .error error else return .failed

/-- The entries of a job as `process_entries` has them: unclaimed, in `running`, with the status
they were given; and the entry whose error has ended the job. -/
structure Scan where
  pending : List Attempt
  running : List Attempt
  done : List (Attempt × EntryStatus)
  ended : Option (Attempt × PhotostaffError)

def start (entries : List Attempt) : Scan := ⟨entries, [], [], none⟩

inductive Move where
  | claim (i : Nat)
  | complete (i : Nat)

/-- Entries are claimed as long as there are some and room for them; then one of those that run,
whichever it is, comes to its end. An error drops the others. -/
def step (concurrency : Nat) (s : Scan) : Move → Option Scan
  | .claim i =>
      if s.ended.isNone ∧ s.running.length < concurrency then
        s.pending[i]?.map fun entry =>
          { s with pending := s.pending.eraseIdx i, running := s.running ++ [entry] }
      else none
  | .complete i =>
      if s.ended.isNone ∧ (concurrency ≤ s.running.length ∨ s.pending.isEmpty) then
        s.running[i]?.map fun entry =>
          match processEntry entry with
          | .ok status =>
              { s with running := s.running.eraseIdx i, done := s.done ++ [(entry, status)] }
          | .error error => { s with running := [], ended := some (entry, error) }
      else none

end Zos.Photostaff.Worker
