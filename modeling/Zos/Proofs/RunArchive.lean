import Zos.Indexer.Runs
import Zos.Lib.Keyed

/-!
# Archiving loses no run

Every run that is in the ledger has its row in one of the two tables (`Accounts`). Archiving a row
moves it together with its failures, so the loop keeps the account whichever rows it skips; what it
skips matters for the newest runs only. A run that is interrupted or finished keeps its id, and no
row that is finished changes again.
-/

namespace Zos.Indexer.Runs

open Zos.Lib

variable {τ : Type}

/-! ## Rows that change -/

theorem Keyed.eq_of_id {tables : Tables τ} (h : Keyed tables) {run other : Run τ}
    (hrun : run ∈ tables.runs) (hother : other ∈ tables.runs) (hid : run.id = other.id) :
    run = other :=
  List.inj_on_of_nodup_map h.runs hrun hother hid

/-- Rows that keep their ids. -/
theorem Keyed.mapRuns {tables : Tables τ} (h : Keyed tables) {f : Run τ → Run τ}
    (hid : ∀ run, (f run).id = run.id) {failures : List (Failure τ)}
    (hfailures : ∀ failure ∈ failures, ∃ run ∈ tables.runs, run.id = failure.runId) :
    Keyed ⟨tables.runs.map f, failures, tables.history⟩ where
  runs := by
    have hids : (tables.runs.map f).map Run.id = tables.runs.map Run.id := by
      rw [List.map_map]
      exact List.map_congr_left fun run _ => hid run
    rw [hids]
    exact h.runs
  history := h.history
  failures failure hfailure := by
    obtain ⟨run, hrun, hrunId⟩ := hfailures failure hfailure
    exact ⟨_, List.mem_map_of_mem hrun, (hid run).trans hrunId⟩
  disjoint run hrun archived harchived := by
    obtain ⟨old, hold, rfl⟩ := List.mem_map.mp hrun
    rw [hid]
    exact h.disjoint old hold archived harchived

theorem Keyed.addRun {tables : Tables τ} (h : Keyed tables) {run : Run τ}
    (hruns : ∀ old ∈ tables.runs, old.id ≠ run.id)
    (hhistory : ∀ archived ∈ tables.history, archived.run.id ≠ run.id) :
    Keyed { tables with runs := tables.runs ++ [run] } where
  runs := nodup_map_concat.mpr ⟨h.runs, hruns⟩
  history := h.history
  failures failure hfailure := by
    obtain ⟨old, hold, hid⟩ := h.failures failure hfailure
    exact ⟨old, List.mem_append_left _ hold, hid⟩
  disjoint old hold archived harchived := by
    rcases List.mem_append.mp hold with hold | hold
    · exact h.disjoint old hold archived harchived
    · rw [List.mem_singleton.mp hold]
      exact (hhistory archived harchived).symm

theorem id_interrupt (now : τ) (run : Run τ) : (run.interrupt now).id = run.id := by
  rw [Run.interrupt]
  split <;> rfl

theorem counters_interrupt (now : τ) (run : Run τ) :
    (run.interrupt now).counters = run.counters := by
  rw [Run.interrupt]
  split <;> rfl

theorem status_interrupt (now : τ) (run : Run τ) : (run.interrupt now).status ≠ .running := by
  rw [Run.interrupt]
  split
  · exact nofun
  · next h => exact h

theorem interrupt_of_finished (now : τ) {run : Run τ} (h : run.finished = true) :
    run.interrupt now = run :=
  if_neg (of_decide_eq_true h)

/-- The tables when every run has been interrupted. -/
def interrupted (now : τ) (tables : Tables τ) : Tables τ :=
  { tables with runs := tables.runs.map (Run.interrupt now) }

section Finish

variable {runId : String} {stats : RunStats} {completed : Bool} {now : τ}

theorem id_finish (run : Run τ) : (run.finish runId stats completed now).id = run.id := by
  rw [Run.finish]
  split <;> rfl

theorem finish_of_finished {run : Run τ} (h : run.finished = true) :
    run.finish runId stats completed now = run :=
  if_neg fun hrunning => of_decide_eq_true h hrunning.2

/-- The tables after a call that succeeded. -/
def finishedTables (runId : String) (stats : RunStats) (completed : Bool) (now : τ)
    (tables : Tables τ) : Tables τ :=
  { tables with
    runs := tables.runs.map (Run.finish runId stats completed now)
    failures := tables.failures ++
      stats.failures.map fun failure => ⟨runId, failure.1, failure.2, now⟩ }

theorem finishRun_cases {tables tables' : Tables τ}
    (h : finishRun runId stats completed now tables = some tables') :
    (∃ run ∈ tables.runs, run.id = runId) ∧
      tables' = finishedTables runId stats completed now tables := by
  rw [finishRun] at h
  split at h
  · next hfound =>
      obtain ⟨run, hrun, hid⟩ := List.any_eq_true.mp hfound.1
      exact ⟨⟨run, hrun, of_decide_eq_true hid⟩, (Option.some.inj h).symm⟩
  · cases h

theorem counters_finish {tables : Tables τ} (h : Keyed tables) {run : Run τ}
    (hrun : run ∈ tables.runs) {entry : Entry} (hid : run.id = entry.id)
    (hcounters : run.counters = entry.counters) :
    (run.finish runId stats completed now).counters =
      (entry.finish tables runId stats).counters := by
  rw [Run.finish, Entry.finish, hid]
  by_cases hsame : entry.id = runId
  · have hrunning : tables.isRunning runId = true ↔ run.status = .running := by
      rw [Tables.isRunning, List.any_eq_true]
      constructor
      · intro ⟨other, hother, hfound⟩
        rw [Bool.and_eq_true, decide_eq_true_iff, decide_eq_true_iff] at hfound
        have heq := h.eq_of_id hother hrun (hfound.1.trans (hsame.symm.trans hid.symm))
        exact heq ▸ hfound.2
      · intro hstatus
        exact ⟨run, hrun, by simp [hid, hsame, hstatus]⟩
    by_cases hstatus : run.status = .running
    · rw [if_pos ⟨hsame, hstatus⟩, if_pos hsame, if_pos (hrunning.mpr hstatus)]
    · rw [if_neg fun hboth => hstatus hboth.2, if_pos hsame, if_neg (mt hrunning.mp hstatus)]
      exact hcounters
  · rw [if_neg fun hboth => hsame hboth.1, if_neg hsame]
    exact hcounters

theorem id_entryFinish (tables : Tables τ) (entry : Entry) :
    (entry.finish tables runId stats).id = entry.id := by
  rw [Entry.finish]
  split <;> rfl

theorem failures_entryFinish (tables : Tables τ) (entry : Entry) :
    (entry.finish tables runId stats).failures =
      entry.failures ++ if entry.id = runId then stats.failures else [] := by
  rw [Entry.finish]
  split
  · rfl
  · exact (List.append_nil _).symm

end Finish

variable [LinearOrder τ]

/-! ## The account -/

structure Accounts (ledger : List Entry) (tables : Tables τ) : Prop where
  keyed : Keyed tables
  entries : ∀ entry ∈ ledger, InRuns tables entry ∨ InHistory tables entry
  runs : ∀ run ∈ tables.runs, ∃ entry ∈ ledger, entry.id = run.id
  history : ∀ archived ∈ tables.history, ∃ entry ∈ ledger, entry.id = archived.run.id

/-! ## Failures -/

theorem failuresOf_perm (failures : List (Failure τ)) (runId : String) :
    (failuresOf failures runId).Perm
      ((failures.filter (·.runId = runId)).map fun failure => (failure.path, failure.reason)) :=
  (List.mergeSort_perm ..).map _

theorem failuresOf_filter (failures : List (Failure τ)) {runId other : String}
    (h : runId ≠ other) :
    failuresOf (failures.filter (·.runId ≠ other)) runId = failuresOf failures runId := by
  have hfilter : (failures.filter (·.runId ≠ other)).filter (·.runId = runId) =
      failures.filter (·.runId = runId) := by
    rw [List.filter_filter]
    refine List.filter_congr fun failure _ => ?_
    by_cases hid : failure.runId = runId
    · simp [hid, h]
    · simp [hid]
  rw [failuresOf, hfilter, failuresOf]

theorem failuresOf_of_forall_ne {failures : List (Failure τ)} {runId : String}
    (h : ∀ failure ∈ failures, failure.runId ≠ runId) : failuresOf failures runId = [] := by
  have hfilter : failures.filter (·.runId = runId) = [] := by
    rw [List.filter_eq_nil_iff]
    intro failure hfailure
    simpa using h failure hfailure
  rw [failuresOf, hfilter, List.mergeSort_nil, List.map_nil]

/-! ## Archiving one row -/

theorem archiveRun_keyed {tables : Tables τ} (h : Keyed tables) (row : Run τ) :
    Keyed (archiveRun tables row) where
  runs := h.runs.sublist (List.filter_sublist.map _)
  history := by
    refine nodup_map_concat.mpr ⟨h.history.sublist (List.filter_sublist.map _), ?_⟩
    intro old hold
    exact of_decide_eq_true (List.mem_filter.mp hold).2
  failures failure hfailure := by
    obtain ⟨hfailure, hother⟩ := List.mem_filter.mp hfailure
    obtain ⟨run, hrun, hid⟩ := h.failures failure hfailure
    refine ⟨run, List.mem_filter.mpr ⟨hrun, ?_⟩, hid⟩
    rw [hid]
    exact hother
  disjoint run hrun archived harchived := by
    obtain ⟨hrun, hother⟩ := List.mem_filter.mp hrun
    rcases List.mem_append.mp harchived with harchived | harchived
    · exact h.disjoint run hrun archived (List.mem_of_mem_filter harchived)
    · rw [List.mem_singleton.mp harchived]
      exact of_decide_eq_true hother

/-- The run of an entry stays where it is or moves with everything it has. -/
theorem archiveRun_entry {tables : Tables τ} (h : Keyed tables) {row : Run τ}
    (hrow : row ∈ tables.runs) {entry : Entry}
    (hentry : InRuns tables entry ∨ InHistory tables entry) :
    InRuns (archiveRun tables row) entry ∨ InHistory (archiveRun tables row) entry := by
  rcases hentry with ⟨⟨run, hrun, hid, hcounters⟩, hfailures⟩ | ⟨archived, harchived, hid, hkept⟩
  · by_cases hsame : entry.id = row.id
    · have heq : run = row := h.eq_of_id hrun hrow (hid.trans hsame)
      subst heq
      refine .inr ⟨_, List.mem_append_right _ List.mem_cons_self, hid, hcounters, ?_⟩
      rw [hid]
      exact hfailures
    · refine .inl ⟨⟨run, List.mem_filter.mpr ⟨hrun, ?_⟩, hid, hcounters⟩, ?_⟩
      · rw [hid]
        exact decide_eq_true hsame
      · rw [archiveRun, failuresOf_filter _ hsame]
        exact hfailures
  · refine .inr ⟨archived, List.mem_append_left _ (List.mem_filter.mpr ⟨harchived, ?_⟩), hid, hkept⟩
    exact decide_eq_true (h.disjoint row hrow archived harchived).symm

theorem Accounts.archiveRun {ledger : List Entry} {tables : Tables τ}
    (h : Accounts ledger tables) {row : Run τ} (hrow : row ∈ tables.runs) :
    Accounts ledger (archiveRun tables row) where
  keyed := archiveRun_keyed h.keyed row
  entries entry hentry := archiveRun_entry h.keyed hrow (h.entries entry hentry)
  runs run hrun := h.runs run (List.mem_of_mem_filter hrun)
  history archived harchived := by
    rcases List.mem_append.mp harchived with harchived | harchived
    · exact h.history archived (List.mem_of_mem_filter harchived)
    · rw [List.mem_singleton.mp harchived]
      exact h.runs row hrow

/-! ## The loop -/

section Loop

variable {keep : Run τ → Bool}

/-- The loop over some of the rows. -/
def archiveRows (keep : Run τ → Bool) (tables : Tables τ) (rows : List (Run τ)) : Tables τ :=
  rows.foldl (fun tables row => if keep row then tables else archiveRun tables row) tables

theorem archiveRows_accounts {ledger : List Entry} {tables : Tables τ} {rows : List (Run τ)}
    (h : Accounts ledger tables) (hrows : ∀ row ∈ rows, row ∈ tables.runs)
    (hids : (rows.map Run.id).Nodup) : Accounts ledger (archiveRows keep tables rows) := by
  induction rows generalizing tables with
  | nil => exact h
  | cons row rows ih =>
      obtain ⟨hrow, hids⟩ := List.nodup_cons.mp hids
      have hrest : ∀ row ∈ rows, row ∈ tables.runs := fun other hother =>
        hrows other (List.mem_cons_of_mem row hother)
      rw [archiveRows, List.foldl_cons]
      split
      · exact ih h hrest hids
      · refine ih (h.archiveRun (hrows row List.mem_cons_self)) ?_ hids
        intro other hother
        refine List.mem_filter.mpr ⟨hrest other hother, decide_eq_true ?_⟩
        intro heq
        exact hrow (heq ▸ List.mem_map_of_mem hother)

/-- A run none of whose rows is archived stays. -/
theorem mem_archiveRows {tables : Tables τ} {rows : List (Run τ)} {run : Run τ}
    (hrun : run ∈ tables.runs) (hkeep : ∀ row ∈ rows, row.id = run.id → keep row = true) :
    run ∈ (archiveRows keep tables rows).runs := by
  induction rows generalizing tables with
  | nil => exact hrun
  | cons row rows ih =>
      have hrest : ∀ row ∈ rows, row.id = run.id → keep row = true := fun other hother =>
        hkeep other (List.mem_cons_of_mem row hother)
      rw [archiveRows, List.foldl_cons]
      split
      · exact ih hrun hrest
      · next hdropped =>
          refine ih (List.mem_filter.mpr ⟨hrun, decide_eq_true ?_⟩) hrest
          intro heq
          exact hdropped (hkeep row List.mem_cons_self heq.symm)

/-- Nothing comes into `index_runs`, and into the history only rows. -/
theorem of_mem_archiveRows {tables : Tables τ} {rows : List (Run τ)} :
    (∀ run ∈ (archiveRows keep tables rows).runs, run ∈ tables.runs) ∧
      ∀ archived ∈ (archiveRows keep tables rows).history,
        archived ∈ tables.history ∨ archived.run ∈ rows := by
  induction rows generalizing tables with
  | nil => exact ⟨fun _ => id, fun _ => .inl⟩
  | cons row rows ih =>
      rw [archiveRows, List.foldl_cons]
      split
      · obtain ⟨hruns, hhistory⟩ := @ih tables
        refine ⟨hruns, fun archived harchived => ?_⟩
        exact (hhistory archived harchived).imp_right (List.mem_cons_of_mem row)
      · obtain ⟨hruns, hhistory⟩ := @ih (archiveRun tables row)
        refine ⟨fun run hrun => List.mem_of_mem_filter (hruns run hrun), ?_⟩
        intro archived harchived
        rcases hhistory archived harchived with hmem | hmem
        · rcases List.mem_append.mp hmem with hmem | hmem
          · exact .inl (List.mem_of_mem_filter hmem)
          · rw [List.mem_singleton.mp hmem]
            exact .inr List.mem_cons_self
        · exact .inr (List.mem_cons_of_mem row hmem)

end Loop

/-! ## Interrupted runs -/

theorem Accounts.interrupted {ledger : List Entry} {tables : Tables τ}
    (h : Accounts ledger tables) (now : τ) : Accounts ledger (interrupted now tables) where
  keyed := h.keyed.mapRuns (id_interrupt now) h.keyed.failures
  entries entry hentry := by
    refine (h.entries entry hentry).imp_left fun hin => ?_
    obtain ⟨⟨run, hrun, hid, hcounters⟩, hfailures⟩ := hin
    refine ⟨⟨_, List.mem_map_of_mem hrun, ?_, ?_⟩, hfailures⟩
    · rw [id_interrupt, hid]
    · rw [counters_interrupt, hcounters]
  runs run hrun := by
    obtain ⟨old, hold, rfl⟩ := List.mem_map.mp hrun
    rw [id_interrupt]
    exact h.runs old hold
  history := h.history

/-! ## The rows -/

theorem mem_finishedRows {runs : List (Run τ)} {run : Run τ} :
    run ∈ finishedRows runs ↔ run ∈ runs ∧ run.finished = true :=
  List.mem_mergeSort.trans List.mem_filter

theorem pairwise_finishedRows (runs : List (Run τ)) :
    (finishedRows runs).Pairwise fun a b => b.time ≤ a.time := by
  have hsorted := @List.pairwise_mergeSort _ (fun (a b : Run τ) => decide (b.time ≤ a.time))
    (fun a b c hab hbc => decide_eq_true
      (le_trans (of_decide_eq_true hbc) (of_decide_eq_true hab)))
    (fun a b => by simpa using le_total b.time a.time) (runs.filter Run.finished)
  exact hsorted.imp of_decide_eq_true

theorem nodup_finishedRows {runs : List (Run τ)} (h : (runs.map Run.id).Nodup) :
    ((finishedRows runs).map Run.id).Nodup := by
  have hperm : (finishedRows runs).Perm (runs.filter Run.finished) := List.mergeSort_perm ..
  exact (hperm.map Run.id).nodup_iff.mpr (h.sublist (List.filter_sublist.map _))

/-- The first row with some property is the newest one that has it. -/
theorem le_of_find? {rows : List (Run τ)} {p : Run τ → Bool} {first run : Run τ}
    (hsorted : rows.Pairwise fun a b => b.time ≤ a.time) (hfirst : rows.find? p = some first)
    (hrun : run ∈ rows) (hp : p run = true) : run.time ≤ first.time := by
  induction rows with
  | nil => cases hrun
  | cons row rows ih =>
      obtain ⟨hrow, hsorted⟩ := List.pairwise_cons.mp hsorted
      by_cases hpr : p row = true
      · rw [List.find?_cons_of_pos hpr] at hfirst
        cases hfirst
        rcases List.mem_cons.mp hrun with rfl | hrun
        · exact le_refl _
        · exact hrow run hrun
      · rw [List.find?_cons_of_neg hpr] at hfirst
        rcases List.mem_cons.mp hrun with rfl | hrun
        · exact absurd hp hpr
        · exact ih hsorted hfirst hrun

/-! ## Starting a run -/

/-- What the loop makes of the interrupted runs. -/
theorem archivePreviousRuns_eq (now : τ) (tables : Tables τ) :
    archivePreviousRuns now tables =
      archiveRows (retained (finishedRows (interrupted now tables).runs)) (interrupted now tables)
        (finishedRows (interrupted now tables).runs) := rfl

theorem Accounts.archivePreviousRuns {ledger : List Entry} {tables : Tables τ}
    (h : Accounts ledger tables) (now : τ) : Accounts ledger (archivePreviousRuns now tables) := by
  rw [archivePreviousRuns_eq]
  have hall := h.interrupted now
  refine archiveRows_accounts hall ?_ (nodup_finishedRows hall.keyed.runs)
  intro row hrow
  exact (mem_finishedRows.mp hrow).1

/-- Whatever is in the history afterwards is not newer than some row. -/
theorem exists_row {tables : Tables τ} (h : NewestKept tables) {now : τ} {archived : Archived τ}
    (harchived : archived ∈ (archivePreviousRuns now tables).history) :
    (∃ row ∈ finishedRows (interrupted now tables).runs, archived.run.time ≤ row.time) ∧
      (archived.run.kind = .full → ∃ row ∈ finishedRows (interrupted now tables).runs,
        row.kind = .full ∧ archived.run.time ≤ row.time) := by
  have hrow {run : Run τ} (hrun : run ∈ tables.runs) (hfinished : run.finished = true) :
      run ∈ finishedRows (interrupted now tables).runs := by
    refine mem_finishedRows.mpr ⟨?_, hfinished⟩
    exact List.mem_map.mpr ⟨run, hrun, interrupt_of_finished now hfinished⟩
  rw [archivePreviousRuns_eq] at harchived
  rcases of_mem_archiveRows.2 archived harchived with hold | hnew
  · constructor
    · obtain ⟨run, hrun, hfinished, htime⟩ := h.any archived hold
      exact ⟨run, hrow hrun hfinished, htime⟩
    · intro hkind
      obtain ⟨run, hrun, hfinished, hfull, htime⟩ := h.full archived hold hkind
      exact ⟨run, hrow hrun hfinished, hfull, htime⟩
  · exact ⟨⟨_, hnew, le_refl _⟩, fun hkind => ⟨_, hnew, hkind, le_refl _⟩⟩

/-- A row that is retained is still there. -/
theorem mem_of_retained {tables : Tables τ} {now : τ} {row : Run τ}
    (hrow : row ∈ finishedRows (interrupted now tables).runs)
    (hretained : retained (finishedRows (interrupted now tables).runs) row = true) :
    row ∈ (archivePreviousRuns now tables).runs ∧ row.finished = true := by
  obtain ⟨hrun, hfinished⟩ := mem_finishedRows.mp hrow
  refine ⟨?_, hfinished⟩
  rw [archivePreviousRuns_eq]
  refine mem_archiveRows hrun fun other _ hid => ?_
  rw [retained] at hretained ⊢
  rwa [hid]

/-- Finished rows that stay. -/
theorem NewestKept.mono {tables : Tables τ} (h : NewestKept tables) {runs : List (Run τ)}
    {failures : List (Failure τ)}
    (hruns : ∀ run ∈ tables.runs, run.finished = true → run ∈ runs) :
    NewestKept ⟨runs, failures, tables.history⟩ where
  any archived harchived := by
    obtain ⟨run, hrun, hfinished, hrest⟩ := h.any archived harchived
    exact ⟨run, hruns run hrun hfinished, hfinished, hrest⟩
  full archived harchived hkind := by
    obtain ⟨run, hrun, hfinished, hrest⟩ := h.full archived harchived hkind
    exact ⟨run, hruns run hrun hfinished, hfinished, hrest⟩

theorem NewestKept.archivePreviousRuns {tables : Tables τ} (h : NewestKept tables) (now : τ) :
    NewestKept (archivePreviousRuns now tables) where
  any archived harchived := by
    obtain ⟨⟨row, hrow, htime⟩, -⟩ := exists_row h harchived
    have hsorted := pairwise_finishedRows (interrupted now tables).runs
    cases hrows : finishedRows (interrupted now tables).runs with
    | nil =>
        rw [hrows] at hrow
        cases hrow
    | cons first rows =>
        have hfirst : first ∈ finishedRows (interrupted now tables).runs :=
          hrows ▸ List.mem_cons_self
        have hkept := mem_of_retained hfirst (by simp [retained, newest, hrows])
        refine ⟨first, hkept.1, hkept.2, le_trans htime ?_⟩
        rw [hrows] at hsorted hrow
        rcases List.mem_cons.mp hrow with rfl | hrow
        · exact le_refl _
        · exact (List.pairwise_cons.mp hsorted).1 row hrow
  full archived harchived hkind := by
    obtain ⟨-, hfull⟩ := exists_row h harchived
    obtain ⟨row, hrow, hrowFull, htime⟩ := hfull hkind
    have hsome : ((finishedRows (interrupted now tables).runs).find? (·.kind = .full)).isSome :=
      List.find?_isSome.mpr ⟨row, hrow, decide_eq_true hrowFull⟩
    obtain ⟨first, hfirst⟩ := Option.isSome_iff_exists.mp hsome
    have hkept := mem_of_retained (List.mem_of_find?_eq_some hfirst)
      (by simp [retained, newestFull, hfirst])
    have hfirstFull : first.kind = .full := by simpa using List.find?_some hfirst
    refine ⟨first, hkept.1, hkept.2, hfirstFull, ?_⟩
    exact le_trans htime (le_of_find? (pairwise_finishedRows _) hfirst hrow
      (decide_eq_true hrowFull))

/-- No run is left running. -/
theorem not_running_archivePreviousRuns (now : τ) (tables : Tables τ) :
    ∀ run ∈ (archivePreviousRuns now tables).runs, run.status ≠ .running := by
  intro run hrun
  rw [archivePreviousRuns_eq] at hrun
  obtain ⟨old, _, rfl⟩ := List.mem_map.mp (of_mem_archiveRows.1 run hrun)
  exact status_interrupt now old

theorem running_startRun (id : String) (kind : Kind) (now : τ) (tables : Tables τ) :
    ((startRun id kind now tables).runs.filter fun run => run.status = .running).length = 1 := by
  have hnone : (archivePreviousRuns now tables).runs.filter (·.status = .running) = [] := by
    rw [List.filter_eq_nil_iff]
    intro run hrun
    simpa using not_running_archivePreviousRuns now tables run hrun
  rw [startRun, List.filter_append, hnone]
  rfl

theorem Accounts.startRun {ledger : List Entry} {tables : Tables τ} (h : Accounts ledger tables)
    {id : String} (hfresh : ∀ entry ∈ ledger, entry.id ≠ id) (kind : Kind) (now : τ) :
    Accounts (ledger ++ [⟨id, .zero, []⟩]) (startRun id kind now tables) := by
  have harchived := h.archivePreviousRuns now
  rw [Runs.startRun]
  generalize Runs.archivePreviousRuns now tables = tables at harchived ⊢
  have hrun : ∀ run ∈ tables.runs, run.id ≠ id := by
    intro run hrun hid
    obtain ⟨entry, hentry, heq⟩ := harchived.runs run hrun
    exact hfresh entry hentry (heq.trans hid)
  have hhistory : ∀ archived ∈ tables.history, archived.run.id ≠ id := by
    intro archived hmem hid
    obtain ⟨entry, hentry, heq⟩ := harchived.history archived hmem
    exact hfresh entry hentry (heq.trans hid)
  refine ⟨harchived.keyed.addRun hrun hhistory, ?_, ?_, ?_⟩
  · intro entry hentry
    rcases List.mem_append.mp hentry with hentry | hentry
    · refine (harchived.entries entry hentry).imp_left fun hin => ?_
      obtain ⟨⟨run, hmem, hrow⟩, hfailures⟩ := hin
      exact ⟨⟨run, List.mem_append_left _ hmem, hrow⟩, hfailures⟩
    · rw [List.mem_singleton.mp hentry]
      refine .inl ⟨⟨_, List.mem_append_right _ List.mem_cons_self, rfl, rfl⟩, ?_⟩
      have hnone : failuresOf tables.failures id = [] := by
        refine failuresOf_of_forall_ne fun failure hfailure heq => ?_
        obtain ⟨run, hmem, hid⟩ := harchived.keyed.failures failure hfailure
        exact hrun run hmem (hid.trans heq)
      dsimp only
      rw [hnone]
  · intro run hmem
    rcases List.mem_append.mp hmem with hmem | hmem
    · obtain ⟨entry, hentry, hid⟩ := harchived.runs run hmem
      exact ⟨entry, List.mem_append_left _ hentry, hid⟩
    · rw [List.mem_singleton.mp hmem]
      exact ⟨_, List.mem_append_right _ List.mem_cons_self, rfl⟩
  · intro archived harch
    obtain ⟨entry, hentry, hid⟩ := harchived.history archived harch
    exact ⟨entry, List.mem_append_left _ hentry, hid⟩

theorem NewestKept.startRun {tables : Tables τ} (h : NewestKept tables) (id : String)
    (kind : Kind) (now : τ) : NewestKept (startRun id kind now tables) :=
  (h.archivePreviousRuns now).mono fun _ hrun _ => List.mem_append_left _ hrun

/-! ## Finishing a run -/

section Finish

variable {runId : String} {stats : RunStats} {completed : Bool} {now : τ}

/-- The failures of a run that is finished are those it had and the new ones. -/
theorem failuresOf_finished (failures : List (Failure τ)) (id : String) :
    (failuresOf (failures ++ stats.failures.map fun failure =>
        (⟨runId, failure.1, failure.2, now⟩ : Failure τ)) id).Perm
      (failuresOf failures id ++ if id = runId then stats.failures else []) := by
  have hnew : ((stats.failures.map fun failure =>
      (⟨runId, failure.1, failure.2, now⟩ : Failure τ)).filter (·.runId = id)).map
        (fun failure => (failure.path, failure.reason)) =
      if id = runId then stats.failures else [] := by
    split
    · next hid =>
        rw [List.filter_eq_self.mpr, List.map_map]
        · exact List.map_id' _
        · intro failure hfailure
          obtain ⟨_, _, rfl⟩ := List.mem_map.mp hfailure
          exact decide_eq_true hid.symm
    · next hid =>
        rw [List.filter_eq_nil_iff.mpr]
        · rfl
        · intro failure hfailure
          obtain ⟨_, _, rfl⟩ := List.mem_map.mp hfailure
          simpa using fun heq => hid heq.symm
  refine (failuresOf_perm _ id).trans ?_
  rw [List.filter_append, List.map_append, hnew]
  exact (failuresOf_perm failures id).symm.append_right _

theorem Accounts.finish {ledger : List Entry} {tables : Tables τ} (h : Accounts ledger tables)
    (hfound : ∃ run ∈ tables.runs, run.id = runId) :
    Accounts (ledger.map (Entry.finish tables runId stats))
      (finishedTables runId stats completed now tables) := by
  refine ⟨h.keyed.mapRuns id_finish ?_, ?_, ?_, ?_⟩
  · intro failure hfailure
    rcases List.mem_append.mp hfailure with hfailure | hfailure
    · exact h.keyed.failures failure hfailure
    · obtain ⟨_, _, rfl⟩ := List.mem_map.mp hfailure
      exact hfound
  · intro entry hentry
    obtain ⟨old, hold, rfl⟩ := List.mem_map.mp hentry
    rcases h.entries old hold with ⟨⟨run, hrun, hid, hcounters⟩, hfailures⟩ |
      ⟨archived, harchived, hid, hkept⟩
    · refine .inl ⟨⟨_, List.mem_map_of_mem hrun, ?_, ?_⟩, ?_⟩
      · rw [id_finish, id_entryFinish, hid]
      · exact counters_finish h.keyed hrun hid hcounters
      · rw [id_entryFinish, failures_entryFinish]
        exact (failuresOf_finished tables.failures old.id).trans (hfailures.append_right _)
    · -- A run with a row in `index_runs` is not in the history.
      obtain ⟨run, hrun, hrunId⟩ := hfound
      have hother : old.id ≠ runId := by
        intro heq
        exact h.keyed.disjoint run hrun archived harchived (hrunId.trans (heq.symm.trans hid.symm))
      have hsame : old.finish tables runId stats = old := if_neg hother
      rw [hsame]
      exact .inr ⟨archived, harchived, hid, hkept⟩
  · intro run hrun
    obtain ⟨old, hold, rfl⟩ := List.mem_map.mp hrun
    obtain ⟨entry, hentry, hid⟩ := h.runs old hold
    refine ⟨_, List.mem_map_of_mem hentry, ?_⟩
    rw [id_entryFinish, id_finish, hid]
  · intro archived harchived
    obtain ⟨entry, hentry, hid⟩ := h.history archived harchived
    exact ⟨_, List.mem_map_of_mem hentry, (id_entryFinish tables entry).trans hid⟩

theorem NewestKept.finish {tables : Tables τ} (h : NewestKept tables) :
    NewestKept (finishedTables runId stats completed now tables) :=
  h.mono fun run hrun hfinished =>
    List.mem_map.mpr ⟨run, hrun, finish_of_finished hfinished⟩

end Finish

/-! ## Every sequence of calls -/

structure Inv (s : State τ) : Prop where
  accounts : Accounts s.ledger s.tables
  newest : NewestKept s.tables

theorem Content.inv (content : Content τ) : Inv content.state where
  accounts := by
    refine ⟨content.keyed, ?_, ?_, ?_⟩
    · intro entry hentry
      rcases List.mem_append.mp hentry with hentry | hentry
      · obtain ⟨run, hrun, rfl⟩ := List.mem_map.mp hentry
        exact .inl ⟨⟨run, hrun, rfl, rfl⟩, .refl _⟩
      · obtain ⟨archived, harchived, rfl⟩ := List.mem_map.mp hentry
        exact .inr ⟨archived, harchived, rfl, rfl, .refl _⟩
    · intro run hrun
      exact ⟨_, List.mem_append_left _ (List.mem_map_of_mem hrun), rfl⟩
    · intro archived harchived
      exact ⟨_, List.mem_append_right _ (List.mem_map_of_mem harchived), rfl⟩
  newest := content.newest

theorem Inv.step {s s' : State τ} {call : Call τ} (h : Inv s) (hfresh : FreshIds s call)
    (hstep : step s call = some s') : Inv s' := by
  cases call with
  | start id kind now =>
      cases hstep
      exact ⟨h.accounts.startRun hfresh kind now, h.newest.startRun id kind now⟩
  | finish runId stats completed now =>
      obtain ⟨tables, hfinish, rfl⟩ := Option.map_eq_some_iff.mp hstep
      obtain ⟨hfound, rfl⟩ := finishRun_cases hfinish
      exact ⟨h.accounts.finish hfound, h.newest.finish⟩

theorem Inv.kept {s : State τ} (h : Inv s) : Kept s where
  once entry hentry := by
    rcases h.accounts.entries entry hentry with hin | hin
    · obtain ⟨run, hrun, hid, -⟩ := hin.row
      refine .inl ⟨hin, fun archived harchived heq => ?_⟩
      exact h.accounts.keyed.disjoint run hrun archived harchived (hid.trans heq.symm)
    · refine .inr ⟨hin, fun run hrun heq => ?_⟩
      obtain ⟨archived, harchived, hid, -⟩ := hin
      exact h.accounts.keyed.disjoint run hrun archived harchived (heq.trans hid.symm)
  newest := h.newest
  started id kind now := running_startRun id kind now s.tables

/-- No run is lost by any sequence of calls. -/
theorem archiving_loses_nothing (content : Content τ) : LosesNothing content := by
  intro s hs
  refine (Reach.invariant (I := Inv) ?_ (fun _ _ _ h => h.step) hs).kept
  rintro _ rfl
  exact content.inv

def sampleRun (id : String) (finishedAt : Nat) : Run Nat :=
  ⟨id, .completed, 0, some finishedAt, .zero, none, none, none, none, none, .full⟩

/-- A run is in the history, and a newer one is not. -/
def oneArchived : Content Nat where
  tables := ⟨[sampleRun "newer" 2], [], [⟨sampleRun "older" 1, []⟩]⟩
  keyed := ⟨by simp, by simp, nofun, by simp [sampleRun]⟩
  newest := by constructor <;> simp [sampleRun, Run.finished, Run.time]

theorem archiving_keeps_three :
    ∃ s, Reach step FreshIds (· = oneArchived.state) s ∧ s.ledger.length = 3 ∧ Kept s := by
  have hfresh : FreshIds oneArchived.state (.start "third" .full 3) := by
    simp [FreshIds, Content.state, oneArchived, sampleRun]
  have hreach : Reach step FreshIds (· = oneArchived.state) _ := .step (.init rfl) hfresh rfl
  exact ⟨_, hreach, rfl, archiving_loses_nothing oneArchived _ hreach⟩

/-! ## Contents of another kind -/

/-- The only finished run is in the history. -/
def archivedOnly : Tables Nat := ⟨[], [], [⟨sampleRun "archived" 1, []⟩]⟩

/-- A run is in both tables. -/
def inBoth : Tables Nat := ⟨[sampleRun "twice" 1], [], [⟨sampleRun "twice" 1, []⟩]⟩

def oneScanned : RunStats := ⟨1, 0, 0, 0, 0, 0, 0, 0, []⟩

/-- A run that the next one has superseded. -/
def superseded : Tables Nat := startRun "second" .full 2 (startRun "first" .full 1 ⟨[], [], []⟩)

theorem archived_newest_stays_superseded_counters_dropped :
    ¬NewestKept (startRun "new" .full 2 archivedOnly) ∧
      (∃ run ∈ (startRun "new" .full 2 inBoth).runs,
        ∃ archived ∈ (startRun "new" .full 2 inBoth).history, archived.run.id = run.id) ∧
      ∃ tables, finishRun "first" oneScanned true 3 superseded = some tables ∧
        ∃ run ∈ tables.runs, run.id = "first" ∧ run.counters.scanned = 0 := by
  refine ⟨?_, ?_, ?_⟩
  · intro h
    obtain ⟨run, hrun, hfinished, -⟩ := h.any ⟨sampleRun "archived" 1, []⟩ (by
      simp [startRun, archivePreviousRuns, finishedRows, archivedOnly])
    simp [startRun, archivePreviousRuns, finishedRows, archivedOnly, newRun] at hrun
    simp [hrun, Run.finished] at hfinished
  · simp [inBoth, startRun, archivePreviousRuns, finishedRows, newRun, Run.interrupt, Run.finished,
      retained, newest, sampleRun]
  · simp [superseded, finishRun, startRun, archivePreviousRuns, finishedRows, newRun,
      Run.interrupt, Run.finished, retained, newest, oneScanned, RunStats.storable, Run.finish,
      Counters.zero]

end Zos.Indexer.Runs
