/-!
# The status of a job

The statuses that the rows of `packages/db/src/repositories/jobs.ts` go through, and the guard
of a status update.
-/

namespace Zos.Jobs

inductive JobStatus where
  | queued
  | running
  | waitingApproval
  | completed
  | failed
  | cancelled
  deriving DecidableEq, Repr

/-- The guard of the two status updates: no list, or a list that has the
status. -/
def allowed {α : Type} [DecidableEq α] (allowedFrom : List α) (status : α) : Bool :=
  allowedFrom.isEmpty || allowedFrom.contains status

end Zos.Jobs
