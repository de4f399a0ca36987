import Zos.Lib.Keyed

/-!
# Health alerts

`packages/db/src/repositories/health-alerts.ts`, and the report that
`packages/system-health/src/index.ts` makes of the issues it has found. A report replaces
what is active of the codes that its sender owns. The random id of a row is left out.
-/

namespace Zos.Servers.Alerts

inductive Severity where
  | warning
  | critical
  deriving DecidableEq, Repr

structure Alert where
  code : String
  scope : String
  rootId : Option String
  severity : Severity
  active : Bool
  firstSeenAt : Nat
  lastSeenAt : Nat
  resolvedAt : Option Nat
  details : Option String
  deriving DecidableEq, Repr

structure Issue where
  code : String
  rootId : Option String
  severity : Severity
  message : String
  deriving DecidableEq, Repr

def Issue.scope (issue : Issue) : String := issue.rootId.getD "system"

/-- What a call of `reconcileHealthAlerts` is given; the codes are constants of the sender. -/
structure Report where
  ownedCodes : List String
  issues : List Issue
  now : Nat
  plain : ∀ code ∈ ownedCodes, ':' ∉ code.toList

/-- `HEALTH_OWNED_ALERT_CODES`. -/
def healthOwnedAlertCodes : List String :=
  ["mount_not_ready", "indexer_failed", "stale_index", "indexer_stalled", "indexer_unavailable",
    "indexer_queue_stalled", "indexer_watcher_degraded", "downloader_unavailable",
    "photostaff_unavailable", "vod_player_recovering", "vod_player_unavailable",
    "backup_target_not_ready", "backup_failed", "backup_stale", "repo_check_failed",
    "ops_health_unhealthy", "ops_maintenance_unhealthy"]

/-- The report of `runScheduledHealthEvaluation`, which is the only sender. -/
def runScheduledHealthEvaluation (issues : List Issue) (now : Nat) : Report where
  ownedCodes := healthOwnedAlertCodes
  issues := issues
  now := now
  plain := by decide

def Alert.isAt (alert : Alert) (code scope : String) : Bool :=
  alert.code = code && alert.scope = scope

/-- `INSERT … ON CONFLICT(code, scope) DO UPDATE`, as it is called for an issue. -/
def upsertHealthAlert (now : Nat) (alerts : List Alert) (issue : Issue) : List Alert :=
  if alerts.any (·.isAt issue.code issue.scope) then
    alerts.map fun alert =>
      if alert.isAt issue.code issue.scope then
        { alert with
          active := true
          severity := issue.severity
          lastSeenAt := now
          resolvedAt := none
          details := some issue.message }
      else alert
  else
    alerts ++ [⟨issue.code, issue.scope, issue.rootId, issue.severity, true, now, now, none,
      some issue.message⟩]

def resolveHealthAlert (now : Nat) (alerts : List Alert) (row : Alert) : List Alert :=
  alerts.map fun alert =>
    if alert.isAt row.code row.scope && alert.active then
      { alert with active := false, resolvedAt := some now, lastSeenAt := now }
    else alert

/-- The key of a code and a scope in the `Map`. -/
def mapKey (code scope : String) : List Char := code.toList ++ ':' :: scope.toList

def Report.current (report : Report) : List Issue :=
  (report.issues.filter (·.code ∈ report.ownedCodes)).foldl
    (Lib.upsert (fun issue => mapKey issue.code issue.scope) fun _ _ => true) []

def reconcileHealthAlerts (alerts : List Alert) (report : Report) : List Alert :=
  let alerts := report.current.foldl (upsertHealthAlert report.now) alerts
  let activeRows := alerts.filter fun alert => alert.active && alert.code ∈ report.ownedCodes
  (activeRows.filter fun row => report.current.all fun issue =>
    mapKey issue.code issue.scope ≠ mapKey row.code row.scope).foldl
      (resolveHealthAlert report.now) alerts

/-! ## Purpose -/

def Active (alerts : List Alert) (code scope : String) : Prop :=
  ∃ alert ∈ alerts, alert.isAt code scope = true ∧ alert.active = true

/-- What is to be active after a report, and was before it. -/
def Report.Says (report : Report) (before : Prop) (code scope : String) : Prop :=
  if code ∈ report.ownedCodes then ∃ issue ∈ report.issues, issue.code = code ∧ issue.scope = scope
  else before

end Zos.Servers.Alerts
