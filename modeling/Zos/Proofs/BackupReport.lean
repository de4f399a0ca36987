import Mathlib.Data.Int.Order.Basic
import Mathlib.Data.List.Basic
import Zos.Backup.Health

/-!
# Whether the report on backups is true

The rows that are deleted do no harm: 30 runs that are later are kept, so that the report sees the
last 30 runs of the whole history. It does not see more. Runs of other kinds can take all these
places, and then a recent backup, or a failed one, is not seen.
-/

namespace Zos.Backup.Health

open Zos.Lib (Reach anyStep)

variable {history : History} {run : Run} {n : Nat}

/-! ## What the statements keep -/

structure Inv (history : History) : Prop where
  sorted : history.Pairwise fun a b => b.startedAt < a.startedAt
  /-- A row that is deleted has 30 others before it. -/
  front : ∀ run ∈ history.take 30, run.deleted = false
  finished : ∀ run ∈ history, run.status = .completed → run.finishedAt.isSome

theorem Inv.map (h : Inv history) {f : Run → Run}
    (hstarted : ∀ run, (f run).startedAt = run.startedAt)
    (hdeleted : ∀ run, (f run).deleted = run.deleted)
    (hfinished : ∀ run ∈ history, (f run).status = .completed → (f run).finishedAt.isSome) :
    Inv (history.map f) where
  sorted := by
    rw [List.pairwise_map]
    simpa only [hstarted] using h.sorted
  front run hrun := by
    rw [← List.map_take, List.mem_map] at hrun
    obtain ⟨old, hold, rfl⟩ := hrun
    rw [hdeleted, h.front old hold]
  finished run hrun hcompleted := by
    obtain ⟨old, hold, rfl⟩ := List.mem_map.mp hrun
    exact hfinished old hold hcompleted

/-- Some runs are finished. -/
theorem Inv.finish (h : Inv history) (p : Run → Bool) (status : RunStatus) (now : Int) :
    Inv (history.map fun run => if p run then run.finish status now else run) := by
  refine h.map (fun run => ?_) (fun run => ?_) fun run hrun hcompleted => ?_
  · split <;> rfl
  · split <;> rfl
  · split
    · rfl
    · next hp =>
        rw [if_neg hp] at hcompleted
        exact h.finished run hrun hcompleted

theorem mem_insertRun {other : Run} :
    other ∈ insertRun run history ↔ other = run ∨ other ∈ history := by
  induction history with
  | nil => simp [insertRun]
  | cons first rest ih =>
      rw [insertRun]
      split
      · simp
      · rw [List.mem_cons, ih, List.mem_cons]
        exact or_left_comm

theorem mem_take_insertRun {other : Run} (h : other ∈ (insertRun run history).take n) :
    other = run ∨ other ∈ history.take n := by
  induction history generalizing n with
  | nil => exact .inl (List.mem_singleton.mp (List.mem_of_mem_take h))
  | cons first rest ih =>
      cases n with
      | zero => cases h
      | succ n =>
          rw [insertRun] at h
          split at h
          · rw [List.take_succ_cons, List.mem_cons] at h
            refine h.imp_right fun hmem => ?_
            exact (List.take_sublist_take_left (Nat.le_succ n)).subset hmem
          · rw [List.take_succ_cons, List.mem_cons] at h
            rw [List.take_succ_cons, List.mem_cons]
            rcases h with rfl | h
            · exact .inr (.inl rfl)
            · exact (ih h).imp_right .inr

theorem sorted_insertRun (h : history.Pairwise fun a b => b.startedAt < a.startedAt)
    (hnew : ∀ other ∈ history, other.startedAt ≠ run.startedAt) :
    (insertRun run history).Pairwise fun a b => b.startedAt < a.startedAt := by
  induction history with
  | nil => exact List.pairwise_singleton _ _
  | cons first rest ih =>
      rw [List.pairwise_cons] at h
      rw [List.forall_mem_cons] at hnew
      rw [insertRun]
      split
      · next hlater =>
          refine .cons (List.forall_mem_cons.mpr ⟨hlater, fun other hother => ?_⟩) (.cons h.1 h.2)
          exact Int.lt_trans (h.1 other hother) hlater
      · next hlater =>
          refine .cons (fun other hother => ?_) (ih h.2 hnew.2)
          rcases mem_insertRun.mp hother with rfl | hother
          · have := hnew.1
            omega
          · exact h.1 other hother

theorem map_startedAt_retain {keep : Nat} :
    (retain keep history).map Run.startedAt = history.map Run.startedAt := by
  induction history generalizing keep with
  | nil => rfl
  | cons first rest ih =>
      rw [retain]
      split
      · rw [List.map_cons, ih, List.map_cons]
      · split <;> rw [List.map_cons, ih, List.map_cons]

theorem of_mem_retain {keep : Nat} (h : run ∈ retain keep history) :
    ∃ old ∈ history, run.status = old.status ∧ run.finishedAt = old.finishedAt := by
  induction history generalizing keep with
  | nil => cases h
  | cons first rest ih =>
      have hrest {keep : Nat} (hmem : run ∈ retain keep rest) :
          ∃ old ∈ first :: rest, run.status = old.status ∧ run.finishedAt = old.finishedAt := by
        obtain ⟨old, hold, hsame⟩ := ih hmem
        exact ⟨old, List.mem_cons_of_mem _ hold, hsame⟩
      rw [retain] at h
      split at h
      · rcases List.mem_cons.mp h with rfl | hmem
        · exact ⟨run, List.mem_cons_self, rfl, rfl⟩
        · exact hrest hmem
      · split at h
        · rcases List.mem_cons.mp h with rfl | hmem
          · exact ⟨first, List.mem_cons_self, rfl, rfl⟩
          · exact hrest hmem
        · rcases List.mem_cons.mp h with rfl | hmem
          · exact ⟨run, List.mem_cons_self, rfl, rfl⟩
          · exact hrest hmem

/-- As many rows as are kept come before the first one that is deleted. -/
theorem front_retain {keep : Nat} (hn : n ≤ keep)
    (h : ∀ run ∈ history.take n, run.deleted = false) :
    ∀ run ∈ (retain keep history).take n, run.deleted = false := by
  induction history generalizing n keep with
  | nil => exact h
  | cons first rest ih =>
      cases n with
      | zero => nofun
      | succ n =>
          rw [List.take_succ_cons, List.forall_mem_cons] at h
          rw [retain]
          split
          · rw [List.take_succ_cons, List.forall_mem_cons]
            exact ⟨h.1, ih (by omega) h.2⟩
          · split
            · omega
            · rw [List.take_succ_cons, List.forall_mem_cons]
              exact ⟨h.1, ih (by omega) h.2⟩

theorem Inv.retain (h : Inv history) : Inv (retain 30 history) where
  sorted := by
    rw [← List.pairwise_map (R := (· > ·)) (f := Run.startedAt), map_startedAt_retain,
      List.pairwise_map]
    exact h.sorted
  front := front_retain (Nat.le_refl 30) h.front
  finished run hrun hcompleted := by
    obtain ⟨old, hold, hstatus, hfinished⟩ := of_mem_retain hrun
    rw [hfinished]
    exact h.finished old hold (hstatus ▸ hcompleted)

theorem inv_step {a : Action} {history' : History} (h : Inv history)
    (hs : step history a = some history') : Inv history' := by
  cases a with
  | interrupt now =>
      cases hs
      exact h.finish Run.open .interrupted now
  | insert id kind now =>
      obtain ⟨hnew, hs⟩ := Option.ite_none_left_eq_some.mp hs
      cases hs
      simp only [List.any_eq_true, Bool.or_eq_true, decide_eq_true_eq, not_exists, not_and,
        not_or] at hnew
      refine ⟨sorted_insertRun h.sorted fun other hother => (hnew other hother).2, ?_, ?_⟩
      · intro run hrun
        rcases mem_take_insertRun hrun with rfl | hold
        · rfl
        · exact h.front run hold
      · intro run hrun hcompleted
        rcases mem_insertRun.mp hrun with rfl | hold
        · cases hcompleted
        · exact h.finished run hold hcompleted
  | finishBackupRun id status now =>
      obtain ⟨-, hs⟩ := Option.ite_none_left_eq_some.mp hs
      cases hs
      exact h.finish (fun run => run.id = id && run.open) status now
  | runOpsMaintenanceRetention =>
      cases hs
      exact h.retain

theorem Reached.inv (s : Reached) : Inv s.history := by
  refine s.reached.invariant (I := Inv) (fun _ hs => ?_) fun _ _ _ h _ hs => inv_step h hs
  subst hs
  exact ⟨.nil, nofun, nofun⟩

/-! ## The report -/

/-- What is listed are the last 30 runs of the history. -/
theorem listBackupRuns_eq (h : Inv history) : listBackupRuns history 30 = history.take 30 := by
  have hfront : (history.take 30).filter (!·.deleted) = history.take 30 :=
    List.filter_eq_self.mpr fun run hrun => by rw [h.front run hrun]; rfl
  rw [listBackupRuns]
  conv_lhs => rw [← List.take_append_drop 30 history, List.filter_append, hfront]
  rcases Nat.le_total 30 history.length with hlong | hshort
  · exact List.take_left' (List.length_take_of_le hlong)
  · rw [List.drop_eq_nil_of_le hshort, List.filter_nil, List.append_nil, List.take_take,
      Nat.min_self]

theorem find?_of_take {p : Run → Bool} (h : (history.take n).find? p = some run) :
    history.find? p = some run := by
  rw [← List.take_append_drop n history, List.find?_append, h, Option.some_or]

theorem find?_take {p : Run → Bool} (h : history.find? p = some run) (hrun : run ∈ history.take n) :
    (history.take n).find? p = some run := by
  cases hfind : (history.take n).find? p with
  | none => exact absurd (List.find?_some h) (List.find?_eq_none.mp hfind run hrun)
  | some first => rw [← h, find?_of_take hfind]

theorem latest_iff (h : Inv history) :
    Latest history run ↔ history.find? (·.kind.scheduled) = some run := by
  rw [List.find?_eq_some_iff_append]
  constructor
  · rintro ⟨hmem, hscheduled, hlatest⟩
    obtain ⟨before, after, rfl⟩ := List.append_of_mem hmem
    refine ⟨hscheduled, before, after, rfl, fun other hother => ?_⟩
    have hlater := (List.pairwise_append.mp h.sorted).2.2 other hother run List.mem_cons_self
    rw [Bool.not_eq_true', Bool.eq_false_iff]
    intro hother'
    have := hlatest other (List.mem_append_left _ hother) hother'
    omega
  · rintro ⟨hscheduled, before, after, rfl, hbefore⟩
    refine ⟨by simp, hscheduled, fun other hother hother' => ?_⟩
    rcases List.mem_append.mp hother with hother | hother
    · exact absurd hother' (by simpa using hbefore other hother)
    · rcases List.mem_cons.mp hother with rfl | hother
      · exact le_rfl
      · have hsorted := (List.pairwise_append.mp h.sorted).2.1
        exact Int.le_of_lt ((List.pairwise_cons.mp hsorted).1 other hother)

theorem backupFailed_iff (h : Inv history) (limit now : Int) :
    .backupFailed ∈ backupIssues ⟨true, some limit⟩ history now ↔
      ∃ run, Latest history run ∧ run.unsuccessful = true ∧ run ∈ history.take 30 := by
  have hmem : .backupFailed ∈ backupIssues ⟨true, some limit⟩ history now ↔
      ((history.take 30).find? (·.kind.scheduled)).any (·.unsuccessful) = true := by
    rw [backupIssues, listBackupRuns_eq h]
    simp only [if_true, List.mem_append]
    split <;> split <;> simp_all
  rw [hmem, Option.any_eq_true]
  constructor
  · rintro ⟨run, hfind, hunsuccessful⟩
    exact ⟨run, (latest_iff h).mpr (find?_of_take hfind), hunsuccessful,
      List.mem_of_find?_eq_some hfind⟩
  · rintro ⟨run, hlatest, hunsuccessful, hrun⟩
    exact ⟨run, find?_take ((latest_iff h).mp hlatest) hrun, hunsuccessful⟩

/-- The latest backup that is listed is not too long ago. -/
def Fresh (history : History) (limit now : Int) : Prop :=
  ∃ run, (history.take 30).find? (·.backup) = some run ∧
    ∃ finishedAt ∈ run.finishedAt, now - finishedAt ≤ limit

theorem backupStale_iff (h : Inv history) (limit now : Int) :
    .backupStale ∈ backupIssues ⟨true, some limit⟩ history now ↔ ¬ Fresh history limit now := by
  have hmem : .backupStale ∈ backupIssues ⟨true, some limit⟩ history now ↔
      ((history.take 30).find? (·.backup)).all (Config.stale ⟨true, some limit⟩ now) = true := by
    rw [backupIssues, listBackupRuns_eq h]
    simp only [if_true, List.mem_append]
    split <;> split <;> simp_all
  rw [hmem, Fresh]
  cases hfind : (history.take 30).find? (·.backup) with
  | none => simp
  | some run =>
      have hbackup : run.status = .completed := by
        have := List.find?_some hfind
        simp only [Run.backup, Bool.and_eq_true, decide_eq_true_eq] at this
        exact this.2
      have hrun := List.mem_of_mem_take (List.mem_of_find?_eq_some hfind)
      obtain ⟨finishedAt, hfinished⟩ := Option.isSome_iff_exists.mp (h.finished run hrun hbackup)
      simp only [Option.all_some, Config.stale, hfinished, decide_eq_true_eq, Option.some.injEq,
        exists_eq_left', Option.mem_def]
      exact Int.not_le.symm

theorem truthful_iff (s : Reached) (limit now : Int) :
    Truthful s.history limit now ↔ Telling s.history limit now := by
  have hfailed := backupFailed_iff s.inv limit now
  have hstale := backupStale_iff s.inv limit now
  constructor
  · intro h
    have hboth : Fresh s.history limit now ↔ ∃ run ∈ s.history, run.Recent limit now :=
      not_iff_not.mp (hstale.symm.trans h.stale)
    refine ⟨fun run hlatest hunsuccessful => ?_, hboth.mpr, fun run hfind hlater => ?_⟩
    · obtain ⟨other, hother, -, hmem⟩ := hfailed.mp (h.failed.mpr ⟨run, hlatest, hunsuccessful⟩)
      rw [latest_iff s.inv] at hlatest hother
      cases hlatest.symm.trans hother
      exact hmem
    · obtain ⟨finishedAt, hfinished, -, hlimit⟩ := hlater
      exact hboth.mp ⟨run, hfind, finishedAt, hfinished, hlimit⟩
  · intro h
    refine ⟨hstale.trans (not_congr ⟨?_, h.recent⟩), hfailed.trans ⟨?_, ?_⟩⟩
    · rintro ⟨run, hfind, finishedAt, hfinished, hlimit⟩
      rcases lt_or_ge now finishedAt with hlater | hpast
      · exact h.past run hfind ⟨finishedAt, hfinished, hlater, hlimit⟩
      · exact ⟨run, List.mem_of_mem_take (List.mem_of_find?_eq_some hfind),
          List.find?_some hfind, finishedAt, hfinished, hpast, hlimit⟩
    · exact fun ⟨run, hlatest, hunsuccessful, _⟩ => ⟨run, hlatest, hunsuccessful⟩
    · exact fun ⟨run, hlatest, hunsuccessful⟩ =>
        ⟨run, hlatest, hunsuccessful, h.latest run hlatest hunsuccessful⟩

/-! ## Thirty checks -/

/-- A daily backup is completed, and then the repository is checked 30 times. -/
def manyChecks : List Action :=
  [.insert 0 .daily 0, .finishBackupRun 0 .completed 1] ++
    (List.range 30).flatMap fun i =>
      [.insert (i + 1) .check (2 * i + 2), .finishBackupRun (i + 1) .completed (2 * i + 3)]

theorem recent_backup_is_stale : ∃ s : Reached, ¬ Truthful s.history 1000 100 := by
  obtain ⟨history, hrun, hs⟩ := Zos.Lib.exists_run step [] manyChecks
    (fun history => decide (.backupStale ∈ backupIssues ⟨true, some 1000⟩ history 100) &&
      decide (⟨0, .daily, .completed, 0, some 1, false⟩ ∈ history)) (by decide +kernel)
  rw [Bool.and_eq_true, decide_eq_true_eq, decide_eq_true_eq] at hs
  refine ⟨⟨history, .of_run (.init rfl) (fun _ _ _ => trivial) hrun⟩, fun h => ?_⟩
  exact h.stale.mp hs.1 ⟨_, hs.2, rfl, 1, rfl, by decide, by decide⟩

end Zos.Backup.Health
