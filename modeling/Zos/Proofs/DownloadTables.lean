import Zos.Lib.Reach
import Zos.Proofs.DownloadSteps

/-!
# What holds of the download tables in every run

A journal row belongs to the task it is filed under, names that task's
operation, and was written by the worker the task still runs under, if it
still runs: a task with a journal is not claimed again. Every journal an
attempt has made up is its own. Ids that were not given out have no rows.
-/

namespace Zos.Downloader

open Zos.Lib

/-! ## The owner's statements -/

/-- The owner's statements leave the status, the owner, the control request,
the operation and the journal of the task alone. -/
theorem OwnerStatement.exec_spec {now w other : Nat} {st : OwnerStatement}
    {e e' : Entry} (h : st.exec now w other e = some e') :
    ∃ task task', e.owned w = some task ∧ e'.task = some task' ∧
      task'.status = task.status ∧ task'.workerId = task.workerId ∧
      task'.controlRequested = task.controlRequested ∧
      task'.fileOperationId = task.fileOperationId ∧ e'.journal = e.journal := by
  cases st with
  | extendLease | progress p | renewPhase phase | resetTransfer
  | setActualChecksum checksum | checkpointSegment c =>
      obtain ⟨task, ht, rfl⟩ := Option.map_eq_some_iff.mp h
      exact ⟨task, _, ht, rfl, rfl, rfl, rfl, rfl, rfl⟩
  | replaceSegments segments =>
      obtain ⟨task, ht, rfl⟩ := Option.map_eq_some_iff.mp h
      exact ⟨task, task, ht, (Entry.owned_eq_some.mp ht).1, rfl, rfl, rfl, rfl, rfl⟩
  | reserveSpace required available minimumFree =>
      simp only [OwnerStatement.exec, Downloader.reserveSpace] at h
      split at h
      · cases h
      · obtain ⟨task, ht, rfl⟩ := Option.map_eq_some_iff.mp h
        exact ⟨task, task, ht, (Entry.owned_eq_some.mp ht).1, rfl, rfl, rfl, rfl,
          rfl⟩

/-! ## Journal rows -/

/-- The journal row of task `t` is in order. -/
def RowOk (t : Nat) (e : Entry) : Prop :=
  ∀ j, e.journal = some j → j.taskId = t ∧ j.operationId = .download t ∧
    ∃ task, e.task = some task ∧
      (task.status = .running → task.workerId = some j.workerId)

/-- A step that keeps the journal row has to keep its task, and may put it
under no other worker. -/
theorem RowOk.keep {t : Nat} {e e' : Entry} {task task' : Task} (hok : RowOk t e)
    (hj : e'.journal = e.journal) (ht : e.task = some task)
    (ht' : e'.task = some task')
    (hr : task'.status = .running →
      task.status = .running ∧ task'.workerId = task.workerId) : RowOk t e' := by
  intro j hrow
  obtain ⟨hid, hop, _, heq, hworker⟩ := hok j (hj ▸ hrow)
  obtain rfl := Option.some.inj (ht.symm.trans heq)
  refine ⟨hid, hop, task', ht', fun hrun => ?_⟩
  rw [(hr hrun).2]
  exact hworker (hr hrun).1

theorem statusForControl_ne_running (c : Option Control) :
    statusForControl c ≠ .running := by
  rcases c with _ | c | c <;> decide

theorem RowOk.recoverExpired {t : Nat} {e : Entry} (hok : RowOk t e) (now : Nat) :
    RowOk t (recoverExpired now e) := by
  unfold Downloader.recoverExpired
  split
  · exact hok
  · next task ht =>
      split
      · split
        · exact hok.keep rfl ht rfl
            fun hrun => absurd hrun (statusForControl_ne_running _)
        · exact hok
      · exact hok.keep rfl ht ht fun hrun => ⟨hrun, rfl⟩

theorem RowOk.requeueOwned {t : Nat} {e : Entry} (hok : RowOk t e) (now w : Nat) :
    RowOk t (requeueOwned now w e) := by
  unfold Downloader.requeueOwned
  split
  · next task ht =>
      exact hok.keep rfl (Entry.held_eq_some.mp ht).1 rfl
        fun hrun => absurd hrun (statusForControl_ne_running _)
  · split
    · exact fun j hrow => hok j hrow
    · exact hok

theorem Change.rowOk {now t : Nat} {st : Statement} {e e' : Entry}
    (h : Change now st t e e') (hok : RowOk t e)
    (hbegin : ∀ j, st = .beginPublish j → j.operationId = .download j.taskId)
    (hto : ∀ u sources toStatus reset, st = .transitionDownloadTask u sources toStatus reset →
      toStatus ≠ .running) : RowOk t e' := by
  cases h with
  | same => exact hok
  | claim h =>
      obtain ⟨task, ht, rfl⟩ := Option.map_eq_some_iff.mp h
      intro j hrow
      cases (claimable_eq_some.mp ht).2.2.2.symm.trans hrow
  | owner h =>
      obtain ⟨task, task', ht, ht', hstatus, hworker, -, -, hj⟩ :=
        OwnerStatement.exec_spec h
      exact hok.keep hj (Entry.owned_eq_some.mp ht).1 ht'
        fun hrun => ⟨hstatus ▸ hrun, hworker⟩
  | @beginPublish journal _ _ h =>
      obtain ⟨task, ht, rfl⟩ := Option.map_eq_some_iff.mp h
      intro j hrow
      obtain rfl := Option.some.inj hrow
      exact ⟨rfl, hbegin _ rfl, _, rfl, fun _ => (Entry.owned_eq_some.mp ht).2.2.1⟩
  | finalizePublish h => exact fun j hrow => nomatch hrow
  | finishControl h =>
      obtain ⟨task, ht, rfl⟩ := Option.map_eq_some_iff.mp h
      refine hok.keep rfl (Entry.held_eq_some.mp ht).1 rfl fun hrun => ?_
      split at hrun <;> cases hrun
  | failOrRetry h =>
      obtain ⟨task, ht, rfl⟩ := Option.map_eq_some_iff.mp h
      refine hok.keep rfl (Entry.held_eq_some.mp ht).1 rfl fun hrun => ?_
      dsimp only at hrun
      split at hrun <;> cases hrun
  | recoverUnpublished h =>
      obtain ⟨task, ht, rfl⟩ := Option.map_eq_some_iff.mp h
      exact fun j hrow => nomatch hrow
  | failRecovery => exact fun j hrow => nomatch hrow
  | recoverExpired => exact hok.recoverExpired now
  | requeueOwned => exact hok.requeueOwned now _
  | request h =>
      obtain ⟨task, ht, rfl⟩ := Option.map_eq_some_iff.mp h
      exact hok.keep rfl (Option.filter_eq_some_iff.mp ht).1 rfl
        fun hrun => ⟨hrun, rfl⟩
  | transition h =>
      obtain ⟨task, ht, rfl⟩ := Option.map_eq_some_iff.mp h
      exact hok.keep rfl (Option.filter_eq_some_iff.mp ht).1 rfl
        fun hrun => absurd hrun (hto _ _ _ _ rfl)
  | delete h =>
      obtain ⟨task, ht, rfl⟩ := Option.map_eq_some_iff.mp h
      exact fun j hrow => nomatch hrow
  | create => exact fun j hrow => nomatch hrow

/-- An entry without rows stays so until its task is created. -/
theorem Change.empty {now t : Nat} {st : Statement} {e' : Entry}
    (h : Change now st t .empty e') :
    e' = .empty ∨ ∃ sha256, st = .createDownloadTask sha256 := by
  generalize he : Entry.empty = e at h
  cases h with
  | same => exact .inl rfl
  | create => exact .inr ⟨_, rfl⟩
  | owner h =>
      obtain ⟨task, -, ht, -⟩ := OwnerStatement.exec_spec h
      rw [← he] at ht
      cases (Entry.owned_eq_some.mp ht).1
  | finalizePublish h =>
      rw [← he] at h
      cases h
  | claim h | beginPublish h | finishControl h | failOrRetry h
  | recoverUnpublished h | request h | transition h | delete h =>
      subst he
      cases h
  | failRecovery | recoverExpired | requeueOwned =>
      subst he
      exact .inl rfl

/-- Ids that were not given out keep having no rows. -/
theorem Statement.exec_fresh {now : Nat} {db db' : Db} {st : Statement}
    (hfresh : ∀ t, db.nextId ≤ t → db.entry t = .empty) (hex : st.exec now db = some db')
    {t : Nat} (ht : db'.nextId ≤ t) : db'.entry t = .empty := by
  have hchange := Statement.exec_change (hfresh _ (Nat.le_refl _)) hex t
  rcases Statement.exec_cases hex with
    ⟨_, hdb, -, hcreate⟩ | ⟨_, _, rfl, -, hdb⟩ | ⟨_, -, hdb⟩
  · rw [hdb] at ht
    rw [hfresh t ht] at hchange
    rcases hchange.empty with h | ⟨sha256, h⟩
    · exact h
    · exact absurd h (hcreate sha256)
  · rw [hdb] at ht
    rw [hfresh t ht] at hchange
    rcases hchange.empty with h | ⟨_, h⟩
    · exact h
    · cases h
  · rw [hdb] at ht ⊢
    have hne : t ≠ db.nextId := Nat.ne_of_gt ht
    show Function.update db.entry db.nextId _ t = .empty
    rw [Function.update_of_ne hne]
    exact hfresh t (Nat.le_of_succ_le ht)

/-! ## Attempts -/

/-- An attempt after a step: as it was, just claimed, or at another stage with
the journal it had, a new one of its own, or none. -/
theorem Step.attempt {s s' : State} {act : Action} (h : Step s act s') {a : Nat}
    {y : Attempt} (hy : s'.attempt a = some y) :
    s.attempt a = some y ∨ y.stage = .started ∨
      ∃ x, s.attempt a = some x ∧ y = { x with stage := y.stage } ∧
        (y.stage.journal = none ∨ y.stage.journal = x.stage.journal ∨
          ∃ identity sha256, y.stage = .prepared (x.journal identity sha256)) := by
  -- The attempt a step moves is `b`, and every other one stays where it was.
  have hmove : ∀ {b : Nat} {x : Attempt} {stage : Stage},
      s.attempt b = some x →
      Function.update s.attempt b (some { x with stage := stage }) a = some y →
      (stage.journal = none ∨ stage.journal = x.stage.journal ∨
        ∃ identity sha256, stage = .prepared (x.journal identity sha256)) →
      s.attempt a = some y ∨ y.stage = .started ∨
        ∃ x, s.attempt a = some x ∧ y = { x with stage := y.stage } ∧
          (y.stage.journal = none ∨ y.stage.journal = x.stage.journal ∨
            ∃ identity sha256, y.stage = .prepared (x.journal identity sha256)) := by
    intro b x stage hx hy hstage
    rcases update_eq_some hy with hold | ⟨rfl, hnew⟩
    · exact .inl hold
    · obtain rfl := Option.some.inj hnew
      exact .inr (.inr ⟨x, hx, rfl, hstage⟩)
  have hnone : ∀ {b : Nat}, Function.update s.attempt b none a = some y →
      s.attempt a = some y := by
    intro b hy
    rcases update_eq_some hy with hold | ⟨-, hnew⟩
    · exact hold
    · cases hnew
  cases h with
  | claim =>
      rcases update_eq_some hy with hold | ⟨-, hnew⟩
      · exact .inl hold
      · exact .inr (.inl (Option.some.inj hnew ▸ rfl))
  | move hx _ _ hj | leave hx _ hj => exact hmove hx hy (.inl hj)
  | drop hx hs => exact hmove hx hy (.inr (.inl (by rw [hs]; rfl)))
  | lockNew hx | lockFree hx | beginDropped hx | finalize hx | removePartial hx =>
      exact hmove hx hy (.inl rfl)
  | prepare hx => exact hmove hx hy (.inr (.inr ⟨_, _, rfl⟩))
  | beginPublish hx hs => exact hmove hx hy (.inr (.inl (by rw [hs]; rfl)))
  | publish hx hs => exact hmove hx hy (.inr (.inl (by rw [hs]; rfl)))
  | finishControl | failOrRetry | ended | stop => exact .inl (hnone hy)
  | passRelease | passRecover => exact .inl (by simpa using hy)
  | requestWrite => exact .inl (by simpa [State.setRequest] using hy)
  | openNew | write | owner | passMove | passLock | passConfirm | passFinalize
  | passRecoverCancelled | passRemove | passFail | recoverExpired | requeueOwned
  | requestMove | requestUnlink | create | tick | createTarget | removeTarget =>
      exact .inl hy

/-! ## The invariant -/

structure TablesOk (s : State) : Prop where
  fresh : ∀ t, s.db.nextId ≤ t → s.db.entry t = .empty
  row : ∀ t, RowOk t (s.db.entry t)
  made : ∀ a x j, s.attempt a = some x → x.stage.journal = some j →
    j = x.journal j.identity j.sha256

theorem TablesOk.initial (targetPath storagePool : Nat → Nat) :
    TablesOk (.initial targetPath storagePool) where
  fresh _ _ := rfl
  row _ _ hrow := nomatch hrow
  made _ _ _ hx := nomatch hx

theorem TablesOk.made_step {s s' : State} {act : Action} (hok : TablesOk s)
    (h : Step s act s') {a : Nat} {y : Attempt} {j : PublishJournal}
    (hy : s'.attempt a = some y) (hj : y.stage.journal = some j) :
    j = y.journal j.identity j.sha256 := by
  rcases h.attempt hy with hx | hstarted | ⟨x, hx, heq, hnone | hsame | ⟨i, k, hnew⟩⟩
  · exact hok.made a y j hx hj
  · rw [hstarted] at hj
    cases hj
  · cases hnone.symm.trans hj
  · rw [heq]
    exact hok.made a x j hx (hsame ▸ hj)
  · rw [hnew] at hj
    obtain rfl := Option.some.inj hj
    rw [heq]
    rfl

/-- The journal that `begin_publish` writes is the attempt's own. -/
theorem TablesOk.beginPublish {s : State} {act : Action} {j : PublishJournal}
    (hok : TablesOk s) (h : Runs s act (.beginPublish j)) :
    ∃ a x, act = .attempt a .beginPublish ∧ s.attempt a = some x ∧
      j = x.journal j.identity j.sha256 := by
  obtain ⟨a, x, rfl, hx, hs⟩ := h
  refine ⟨a, x, rfl, hx, hok.made a x j hx ?_⟩
  rcases hs with hs | hs <;> rw [hs] <;> rfl

/-- No step but a claim makes a task `running`. -/
theorem Runs.transition_ne_running {s : State} {act : Action} {t : Nat}
    {sources : List Status} {toStatus : Status} {reset : Bool}
    (h : Runs s act (.transitionDownloadTask t sources toStatus reset)) :
    toStatus ≠ .running := by
  obtain ⟨r, rfl, hs⟩ := h
  rcases Request.call_cases hs with ⟨_, _, h⟩ | ⟨_, _, _, _, h, hto, -⟩ | ⟨_, h⟩
  · cases h
  · obtain ⟨rfl, rfl, rfl, rfl⟩ := Statement.transitionDownloadTask.inj h
    rintro rfl
    exact absurd hto (by decide)
  · cases h

theorem TablesOk.row_step {s s' : State} {act : Action} (hok : TablesOk s)
    (h : Step s act s') (t : Nat) : RowOk t (s'.db.entry t) := by
  rcases h.change (hok.fresh _ (Nat.le_refl _)) t with heq | ⟨st, hruns, hchange⟩
  · rw [heq]
    exact hok.row t
  · refine hchange.rowOk (hok.row t) ?_ ?_
    · rintro j rfl
      obtain ⟨a, x, -, -, hj⟩ := hok.beginPublish hruns
      rw [hj]
      rfl
    · rintro u sources toStatus reset rfl
      exact hruns.transition_ne_running

theorem TablesOk.fresh_step {s s' : State} {act : Action} (hok : TablesOk s)
    (h : Step s act s') {t : Nat} (ht : s'.db.nextId ≤ t) :
    s'.db.entry t = .empty := by
  rcases h.runs with hdb | ⟨st, -, hex⟩
  · rw [hdb] at ht ⊢
    exact hok.fresh t ht
  · exact Statement.exec_fresh hok.fresh hex ht

theorem TablesOk.step {s s' : State} {act : Action} (hok : TablesOk s)
    (h : Step s act s') : TablesOk s' where
  fresh _ ht := hok.fresh_step h ht
  row t := hok.row_step h t
  made _ _ _ hy hj := hok.made_step h hy hj

/-- The states a run may start from: no task, no file, no thread. -/
def Initial (s : State) : Prop :=
  ∃ targetPath storagePool, s = .initial targetPath storagePool

theorem TablesOk.reach {C : State → Action → Prop} {s : State}
    (h : Reach Downloader.step C Initial s) : TablesOk s := by
  refine h.invariant ?_ ?_
  · rintro _ ⟨targetPath, storagePool, rfl⟩
    exact .initial targetPath storagePool
  · exact fun _ _ _ hok _ hstep => hok.step (step_sound hstep)

theorem download_tables_fit (s : {s // Reach Downloader.step anyStep Initial s}) : TablesOk s.1 :=
  TablesOk.reach s.2

/-! ## A publication -/

/-- An empty system in which every task has a path of its own. -/
def State.blank : State := .initial id fun _ => 0

theorem State.blank_initial : Initial .blank := ⟨id, fun _ => 0, rfl⟩

/-- Worker 1 claims the first task and takes it up to its journal row. -/
def publication : List Action :=
  [.create none, .claim 0 1 0, .attempt 0 .checkTarget,
    .attempt 0 (.lockPartial 7 70), .attempt 0 (.resize 5),
    .attempt 0 (.prepare none), .attempt 0 .beginPublish]

/-- Some run takes these actions, and one more step from where it ends goes
like this. -/
theorem exists_step_from_blank (as : List Action) (act : Action)
    (p : State → State → Bool)
    (h : ((run step .blank as).bind fun s => (step s act).map (p s)) = some true) :
    ∃ s s', run step .blank as = some s ∧ step s act = some s' ∧ p s s' = true := by
  obtain ⟨s, hs, hp⟩ := Option.bind_eq_some_iff.mp h
  obtain ⟨s', h', hp⟩ := Option.map_eq_some_iff.mp hp
  exact ⟨s, s', hs, h', hp⟩

theorem Reach.of_blank {C : State → Action → Prop} {as : List Action} {s : State}
    (hC : ∀ a ∈ as, ∀ s, C s a) (h : run Downloader.step .blank as = some s) :
    Reach Downloader.step C Initial s :=
  Reach.of_run (.init State.blank_initial) hC h

theorem download_tables_fit_published :
    ∃ s, run step .blank publication = some s ∧ s.db.journals.length = 1 ∧ TablesOk s := by
  obtain ⟨s, hrun, hs⟩ := exists_run step .blank publication
    (fun s => s.db.journals.length = 1) (by decide)
  exact ⟨s, hrun, of_decide_eq_true hs,
    download_tables_fit ⟨s, Reach.of_blank (fun _ _ _ => trivial) hrun⟩⟩

end Zos.Downloader
