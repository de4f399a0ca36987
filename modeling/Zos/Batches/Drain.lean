import Zos.Batches.Db
import Zos.Lib.Reach

/-!
# The drain of the batch runner

`FileBatchRunner` of `apps/api/src/lib/file-batch-runner.ts` between its microtasks. `wake` does
nothing while there is an active drain, and `active` is cleared by the handler of `finally`, that
is two microtasks after the drain has found nothing to claim. A submission is `createFileBatch` and
`wake` in one go.
-/

namespace Zos.Batches.Drain

inductive Pc where
  /-- `active` is null. -/
  | idle
  | applying (batch ordinal : Nat)
  /-- `processNextFileBatchItem` has a result, which `drain` has not seen yet. -/
  | processed (final : Bool)
  /-- It found nothing to claim. -/
  | nothing
  /-- It has thrown. -/
  | threw
  /-- `drain` has returned, and the handler of `finally` is pending. -/
  | returned
  deriving DecidableEq, Repr

structure State where
  db : Db
  stopped : Bool
  pc : Pc
  deriving DecidableEq

/-- What becomes of the call of `claimNextFileBatchItem`. -/
inductive Answer where
  /-- An item is claimed; `onStarted` returns, or throws. -/
  | item (batch ordinal : Nat) (started : Bool)
  | nothing
  | error
  deriving DecidableEq, Repr

inductive Action where
  | start (answer : Answer)
  | stop
  | submit (input : BatchInput) (uuid : Nat → String) (answer : Answer)
  | finish (outcome : Outcome) (error : Option String) (now : Nat)
  /-- `finishFileBatchItem` throws. -/
  | finishThrows
  /-- The pending microtask of the drain; `emitProgress` of a final result returns, or throws. -/
  | callback (emitted : Bool) (answer : Answer)
  | cancelJob (batch : Nat)
  | cancelItems (batch now : Nat)

/-- Does `claimNextFileBatchItem` find an item? -/
def claimable (db : Db) : Bool :=
  db.any fun b => b.active && b.items.any (·.status == .queued)

/-- A turn of the loop of `drain`. -/
def turn (s : State) (answer : Answer) : Option State :=
  if s.stopped then some { s with pc := .returned }
  else
    match answer with
    | .item batch ordinal started =>
      (claimNextFileBatchItem s.db batch ordinal).map fun db =>
        { s with db := db, pc := if started then .applying batch ordinal else .threw }
    | .nothing => if claimable s.db then none else some { s with pc := .nothing }
    | .error => some { s with pc := .threw }

def wake (s : State) (answer : Answer) : Option State :=
  if s.stopped ∨ s.pc ≠ .idle then some s else turn s answer

def step (s : State) : Action → Option State
  | .start answer =>
    if s.stopped then
      wake { s with stopped := false, db := recoverInterruptedFileBatches s.db } answer
    else none
  | .stop => some { s with stopped := true }
  | .submit input uuid answer =>
    match createFileBatch s.db input uuid with
    | .ok db => wake { s with db := db } answer
    | .error _ => none
  | .finish outcome error now =>
    match s.pc with
    | .applying batch ordinal =>
      (finishFileBatchItem s.db batch ordinal outcome error now).map fun db =>
        { s with
          db := db
          pc := .processed ((s.db[batch]?).any fun b =>
            (b.finish ordinal outcome error now).2.isSome) }
    | _ => none
  | .finishThrows =>
    match s.pc with
    | .applying _ _ => some { s with pc := .threw }
    | _ => none
  | .callback emitted answer =>
    match s.pc with
    | .processed final =>
      if final ∧ ¬ emitted then some { s with pc := .returned } else turn s answer
    | .nothing | .threw => some { s with pc := .returned }
    | .returned => some { s with pc := .idle }
    | .idle | .applying _ _ => none
  | .cancelJob batch => do
    let b ← s.db[batch]?
    let b ← b.cancelJob
    return { s with db := s.db.set batch b }
  | .cancelItems batch now => some { s with db := cancelQueuedFileBatchItems s.db batch now }

/-- The runner as it is made, on any database. -/
def Initial (s : State) : Prop := s.stopped = true ∧ s.pc = .idle

/-- Only callbacks are left of the drain. -/
def Pc.closing : Pc → Bool
  | .nothing | .threw | .returned => true
  | .idle | .applying _ _ | .processed _ => false

/-- The pending callbacks of a drain that is about to end have run. -/
def settle (s : State) : State := if s.pc.closing then { s with pc := .idle } else s

/-- A runner that is started and has no active drain leaves nothing that could be claimed. -/
def Attended (s : State) : Prop :=
  s.stopped = false → s.pc = .idle → ∀ batch ordinal,
    claimNextFileBatchItem s.db batch ordinal = none

/-- A turn of the loop that throws leaves nothing that could be claimed. -/
def Drains (db : Db) : Answer → Prop
  | .item batch ordinal false => claimable (db.modify batch (·.claim ordinal)) = false
  | .error => claimable db = false
  | .item _ _ true | .nothing => True

/-- Nothing is submitted while the drain is closing, and nothing that could be claimed is left when
it ends by an error. -/
def Allowed (s : State) : Action → Prop
  | .submit input uuid answer =>
    s.stopped = false → s.pc.closing = false ∧
      (s.pc = .idle → ∀ db, createFileBatch s.db input uuid = .ok db → Drains db answer)
  | .start answer =>
    (s.pc.closing → claimable (recoverInterruptedFileBatches s.db) = false) ∧
      (s.pc = .idle → Drains (recoverInterruptedFileBatches s.db) answer)
  | .finishThrows => s.stopped = false → claimable s.db = false
  | .callback emitted answer =>
    ∀ final, s.pc = .processed final → s.stopped = false →
      if final ∧ ¬ emitted then claimable s.db = false else Drains s.db answer
  | .stop | .finish _ _ _ | .cancelJob _ | .cancelItems _ _ => True

/-- A step from a state that was reached by allowed steps. -/
structure Taken where
  state : State
  reached : Zos.Lib.Reach step Allowed Initial state
  action : Action
  next : State
  taken : step state action = some next

end Zos.Batches.Drain
