import Zos.Lib.Reach

/-!
# Console authorizations

`consumeDockerConsoleAuthorization` and `markDockerConsoleAuthorizationFailed` of
`packages/db/src/repositories/docker-console-authorizations.ts`, for the row that
`createDockerConsoleAuthorization` has inserted. Several processes work on one database. A call
that consumes is two statements; it reads the clock of its process behind the first, and other
processes may run before the second. The columns that no statement changes are left out, but for
`expires_at`.
-/

namespace Zos.Docker.Console

inductive Status where
  | active
  | used
  | expired
  | failed
  deriving DecidableEq, Repr

/-- Times are milliseconds. -/
structure Authorization where
  status : Status
  expiresAt : Int
  usedAt : Option Int
  deriving DecidableEq, Repr

def createDockerConsoleAuthorization (approvedOperation : Bool) (now : Int) (ttlMs : Option Int) :
    Option Authorization :=
  if approvedOperation then some ⟨.active, now + ttlMs.getD (5 * 60000), none⟩ else none

/-- Where a call that consumes is. -/
inductive Call where
  | idle
  /-- It is going to write `expired`. -/
  | expiring (now : Int)
  /-- It is going to write `used`, with this time. -/
  | consuming (now : Int)
  | returned (now : Int) (record : Option Authorization)
  deriving DecidableEq, Repr

structure State where
  row : Authorization
  calls : Nat → Call

inductive Action where
  /-- The first statement of a call, and its clock. -/
  | read (call : Nat) (now : Int)
  /-- The second one. -/
  | write (call : Nat)
  | markFailed

def State.setCall (s : State) (i : Nat) (call : Call) : State :=
  { s with calls := fun j => if j = i then call else s.calls j }

/-- What a call does with the row it has read. -/
def Authorization.check (row : Authorization) (now : Int) : Call :=
  if row.status ≠ .active then .returned now none
  else if row.expiresAt ≤ now then .expiring now
  else .consuming now

def step (s : State) : Action → Option State
  | .read i now =>
    match s.calls i with
    | .idle => some (s.setCall i (s.row.check now))
    | _ => none
  | .write i =>
    match s.calls i with
    | .expiring now =>
      -- `UPDATE … SET status = 'expired' WHERE id = ?`
      some ({ s with row.status := .expired }.setCall i (.returned now none))
    | .consuming now =>
      -- `UPDATE … WHERE id = ? AND status = 'active' RETURNING …`
      if s.row.status = .active then
        let row : Authorization := { s.row with status := .used, usedAt := some now }
        some ({ s with row := row }.setCall i (.returned now (some row)))
      else some (s.setCall i (.returned now none))
    | _ => none
  | .markFailed =>
    if s.row.status = .active ∨ s.row.status = .used then
      some { s with row.status := .failed }
    else some s

/-- An authorization was created, and no call was made yet. -/
def Initial (s : State) : Prop :=
  (∃ now ttlMs, createDockerConsoleAuthorization true now ttlMs = some s.row) ∧
    ∀ i, s.calls i = .idle

/-- The call has returned the record. -/
def State.Succeeded (s : State) (i : Nat) : Prop :=
  ∃ now record, s.calls i = .returned now (some record)

structure OneTime (s : State) : Prop where
  once : ∀ i j, s.Succeeded i → s.Succeeded j → i = j
  inTime : ∀ i now record, s.calls i = .returned now (some record) → now < record.expiresAt
  kept : ∀ i, s.Succeeded i →
    (s.row.status = .used ∨ s.row.status = .failed) ∧ s.row.usedAt.isSome

/-- No call that has found the authorization expired writes this after another one has succeeded. -/
def Allowed (s : State) : Action → Prop
  | .write i => ∀ now, s.calls i = .expiring now → ∀ j, ¬ s.Succeeded j
  | .read _ _ | .markFailed => True

/-- A step from a state that was reached by such steps. -/
structure Taken where
  state : State
  reached : Zos.Lib.Reach step Allowed Initial state
  action : Action
  next : State
  taken : step state action = some next

end Zos.Docker.Console
