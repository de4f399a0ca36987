import Zos.Servers.Alerts

/-!
# Reports and active alerts

An alert is active exactly if the last report that owns its code lists it. The key of the `Map`
joins code and scope by a colon; the codes have none, so it tells them apart.
-/

namespace Zos.Servers.Alerts

open Zos.Lib

variable {alerts : List Alert} {code scope : String} {now : Nat}

theorem isAt_iff {alert : Alert} :
    alert.isAt code scope = true ↔ alert.code = code ∧ alert.scope = scope := by
  simp [Alert.isAt]

/-- A statement that leaves code and scope alone. -/
theorem active_map {change : Alert → Alert}
    (hchange : ∀ alert, (change alert).isAt code scope = alert.isAt code scope) :
    Active (alerts.map change) code scope ↔
      ∃ alert ∈ alerts, alert.isAt code scope = true ∧ (change alert).active = true := by
  simp only [Active, List.mem_map, exists_exists_and_eq_and, hchange]

theorem active_upsert {issue : Issue} : Active (upsertHealthAlert now alerts issue) code scope ↔
    Active alerts code scope ∨ issue.code = code ∧ issue.scope = scope := by
  by_cases hany : alerts.any (·.isAt issue.code issue.scope) = true
  · rw [upsertHealthAlert, if_pos hany, active_map fun alert => by split <;> rfl]
    by_cases hsame : issue.code = code ∧ issue.scope = scope
    · obtain ⟨rfl, rfl⟩ := hsame
      obtain ⟨old, hold, hat⟩ := List.any_eq_true.mp hany
      exact iff_of_true ⟨old, hold, hat, by rw [if_pos hat]⟩ (.inr ⟨rfl, rfl⟩)
    · rw [or_iff_left hsame]
      refine exists_congr fun alert => and_congr_right fun _ => and_congr_right fun hat => ?_
      -- a row at another place than the issue's is left as it is
      obtain ⟨rfl, rfl⟩ := isAt_iff.mp hat
      rw [if_neg fun h => hsame ⟨(isAt_iff.mp h).1.symm, (isAt_iff.mp h).2.symm⟩]
  · rw [upsertHealthAlert, if_neg hany]
    simp [Active, Alert.isAt, or_and_right, exists_or]

theorem active_resolve {row : Alert} : Active (resolveHealthAlert now alerts row) code scope ↔
    Active alerts code scope ∧ ¬ row.isAt code scope = true := by
  rw [resolveHealthAlert, active_map fun alert => by split <;> rfl, Active, exists_and_right.symm]
  refine exists_congr fun alert => ?_
  rw [and_assoc, and_assoc]
  refine and_congr_right fun _ => and_congr_right fun hat => ?_
  have hrow : alert.isAt row.code row.scope = row.isAt code scope := by
    obtain ⟨rfl, rfl⟩ := isAt_iff.mp hat
    simp only [Alert.isAt, eq_comm]
  rw [hrow]
  cases row.isAt code scope <;> cases hactive : alert.active <;> simp [hactive]

theorem active_upserts {issues : List Issue} :
    Active (issues.foldl (upsertHealthAlert now) alerts) code scope ↔
      Active alerts code scope ∨ ∃ issue ∈ issues, issue.code = code ∧ issue.scope = scope := by
  induction issues generalizing alerts with
  | nil => simp
  | cons issue issues ih => rw [List.foldl_cons, ih, active_upsert, or_assoc]; simp

theorem active_resolves {rows : List Alert} :
    Active (rows.foldl (resolveHealthAlert now) alerts) code scope ↔
      Active alerts code scope ∧ ∀ row ∈ rows, ¬ row.isAt code scope = true := by
  induction rows generalizing alerts with
  | nil => simp
  | cons row rows ih => rw [List.foldl_cons, ih, active_resolve, List.forall_mem_cons, and_assoc]

theorem mapKey_inj {code' scope' : String} (h : ':' ∉ code.toList) (h' : ':' ∉ code'.toList) :
    mapKey code scope = mapKey code' scope' ↔ code = code' ∧ scope = scope' := by
  have hcode {code scope : String} (h : ':' ∉ code.toList) :
      (mapKey code scope).takeWhile (· ≠ ':') = code.toList := by
    rw [mapKey, List.takeWhile_append_of_pos (by grind), List.takeWhile_cons_of_neg (by simp),
      List.append_nil]
  constructor
  · intro heq
    obtain rfl : code = code' := String.toList_injective (by rw [← hcode h, heq, hcode h'])
    simpa [mapKey, String.toList_inj] using heq
  · rintro ⟨rfl, rfl⟩
    rfl

theorem Report.of_mem_current {report : Report} {issue : Issue} (h : issue ∈ report.current) :
    issue ∈ report.issues ∧ issue.code ∈ report.ownedCodes := by
  simpa using (mem_of_mem_foldl_upsert h).resolve_left List.not_mem_nil

theorem Report.current_key {report : Report} {issue : Issue} (h : issue ∈ report.current)
    (hown : code ∈ report.ownedCodes) :
    mapKey issue.code issue.scope = mapKey code scope ↔ issue.code = code ∧ issue.scope = scope :=
  mapKey_inj (report.plain _ (of_mem_current h).2) (report.plain _ hown)

theorem Report.current_iff (report : Report) (hown : code ∈ report.ownedCodes) :
    (∃ issue ∈ report.current, issue.code = code ∧ issue.scope = scope) ↔
      ∃ issue ∈ report.issues, issue.code = code ∧ issue.scope = scope := by
  constructor
  · rintro ⟨issue, hissue, hat⟩
    exact ⟨issue, (of_mem_current hissue).1, hat⟩
  · rintro ⟨issue, hissue, rfl, rfl⟩
    have hlast : ∃ last ∈ report.current, mapKey last.code last.scope = _ ∧ True :=
      exists_of_mem_foldl_upsert (R := fun _ _ => True) (by simp) (by simp) (by simp) (by simp)
        List.nodup_nil (.inr (List.mem_filter.mpr ⟨hissue, decide_eq_true hown⟩))
    obtain ⟨last, hmem, hkey, -⟩ := hlast
    exact ⟨last, hmem, (current_key hmem hown).mp hkey⟩

theorem reconcile_says (report : Report) :
    Active (reconcileHealthAlerts alerts report) code scope ↔
      report.Says (Active alerts code scope) code scope := by
  simp only [reconcileHealthAlerts, active_resolves, Report.Says, List.mem_filter, List.all_eq_true,
    Bool.and_eq_true, decide_eq_true_eq]
  split
  · next hown =>
    rw [← report.current_iff hown]
    constructor
    · rintro ⟨⟨alert, halert, hat, hactive⟩, hkept⟩
      by_contra hnone
      -- an active row of an owned code that is not listed would have been resolved
      obtain ⟨rfl, rfl⟩ := isAt_iff.mp hat
      refine hkept alert ⟨⟨halert, hactive, hown⟩, fun issue hissue hkey => ?_⟩ hat
      exact hnone ⟨issue, hissue, (Report.current_key hissue hown).mp hkey⟩
    · intro hlisted
      refine ⟨active_upserts.mpr (.inr hlisted), fun row hrow hat => ?_⟩
      obtain ⟨rfl, rfl⟩ := isAt_iff.mp hat
      obtain ⟨issue, hissue, hplace⟩ := hlisted
      exact hrow.2 issue hissue ((Report.current_key hissue hown).mpr hplace)
  · next hother =>
    have hnone : ¬ ∃ issue ∈ report.current, issue.code = code ∧ issue.scope = scope := by
      rintro ⟨issue, hissue, rfl, -⟩
      exact hother (Report.of_mem_current hissue).2
    rw [active_upserts, or_iff_left hnone, and_iff_left_iff_imp]
    intro _ row hrow hat
    exact hother ((isAt_iff.mp hat).1 ▸ hrow.1.2.2)

/-- What reports say one after the other. -/
theorem active_iff_reported (alerts : List Alert) (reports : List Report) (code scope : String) :
    Active (reports.foldl reconcileHealthAlerts alerts) code scope ↔
      reports.foldl (fun before report => report.Says before code scope)
        (Active alerts code scope) := by
  induction reports generalizing alerts with
  | nil => rfl
  | cons report reports ih => rw [List.foldl_cons, ih, List.foldl_cons, reconcile_says]

def staleBackup : Issue := ⟨"backup_stale", none, .warning, "the last backup is old"⟩

def diskFull : Alert :=
  ⟨"disk_full", "system", none, .critical, true, 0, 0, none, none⟩

/-- The first evaluation finds an old backup, the second does not; an alert that no report owns
stays. -/
theorem active_iff_reported_twice :
    let first := runScheduledHealthEvaluation [staleBackup] 1
    let second := runScheduledHealthEvaluation [] 2
    Active ([first].foldl reconcileHealthAlerts [diskFull]) "backup_stale" "system" ∧
      ¬ Active ([first, second].foldl reconcileHealthAlerts [diskFull]) "backup_stale" "system" ∧
      Active ([first, second].foldl reconcileHealthAlerts [diskFull]) "disk_full" "system" := by
  have hfirst : "backup_stale" ∈ healthOwnedAlertCodes := by decide
  have hother : "disk_full" ∉ healthOwnedAlertCodes := by decide
  refine ⟨(active_iff_reported _ _ _ _).mpr ?_, fun h => ?_, (active_iff_reported _ _ _ _).mpr ?_⟩
  · simp [Report.Says, runScheduledHealthEvaluation, hfirst, staleBackup, Issue.scope]
  · have hsaid := (active_iff_reported _ _ _ _).mp h
    simp [Report.Says, runScheduledHealthEvaluation, hfirst] at hsaid
  · simp [Report.Says, runScheduledHealthEvaluation, hother, Active, diskFull, Alert.isAt]

end Zos.Servers.Alerts
