import Zos.Lib.Keyed
import Zos.Proofs.DownloadTables

/-!
# Publication, once and on record

A publication goes through three stores: `begin_publish` writes the journal
row, `publish` renames the partial file to the target, and `finalize_publish`
turns the row into a file operation. A target file is on record when its
journal row is still there or the operation is.

The record gets lost when the row goes while its file is in place or about to
be: by a recovery pass that writes from what it has read earlier, by deleting
the task, and by a second journal row over the first. In every run without
these, the three stores agree.
-/

namespace Zos.Downloader

open Zos.Lib

/-! ## What is to hold -/

/-- There is a `file_operations` row `download:<task id>`. -/
def Db.hasOperation (db : Db) (t : Nat) : Bool :=
  db.fileOperations.any (·.id = .download t)

structure PublishedOnce (s : State) : Prop where
  /-- Only the world outside removes a target file, and nothing replaces one. -/
  noReplace : ∀ act s', step s act = some s' → (∀ path, act ≠ .removeTarget path) →
    ∀ path f, s.targetFile path = some f → s'.targetFile path = some f
  recorded : ∀ path f j, s.targetFile path = some f → f.origin = some j →
    f.identity = j.identity →
    (s.db.entry j.taskId).journal ≠ none ∨ s.db.hasOperation j.taskId = true
  once : ∀ t, (s.db.fileOperations.map (·.id)).count (.download t) ≤ 1
  completed : ∀ t task, (s.db.entry t).task = some task →
    (task.status = .completed ∧ task.fileOperationId = some (.download t) ↔
      s.db.hasOperation t = true)

/-- Nothing of the publication of `t` gets lost with its journal row: the task
is gone already, or the target does not hold the file of the row and no attempt
stands between `begin_publish` and the rename. -/
def Unpublished (s : State) (t : Nat) : Prop :=
  (s.db.entry t).task = none ∨
    (∃ j, (s.db.entry t).journal = some j ∧
      s.targetIdentity t ≠ some j.identity) ∧
    ∀ a x j, s.attempt a = some x → x.stage = .publishing j → x.taskId ≠ t

def RecordFor (s : State) : Statement → Prop
  | .beginPublish j => (s.db.entry j.taskId).journal = none
  | .recoverUnpublished t | .failRecovery t _ _ => Unpublished s t
  | .deleteDownloadTask t => (s.db.entry t).journal = none
  | _ => True

/-- The step writes no journal row over another, recovers only what is still
unpublished, and deletes no task with its journal row. -/
def KeepsRecords (s : State) (act : Action) : Prop :=
  ∀ st, Runs s act st → st.exec s.now s.db ≠ none → RecordFor s st

/-! ## Tasks and operations -/

/-- The rows of task `t`, with an operation `op` of it or without. -/
structure EntryOk (op : Bool) (t : Nat) (e : Entry) : Prop where
  status : ∀ task, e.task = some task → (task.status = .completed ↔ op = true)
  operation : ∀ task, e.task = some task → task.status = .completed →
    task.fileOperationId = some (.download t)
  journal : e.journal ≠ none → op = false

theorem EntryOk.no_operation {op : Bool} {t : Nat} {e : Entry} {task : Task}
    (hok : EntryOk op t e) (ht : e.task = some task) (hne : task.status ≠ .completed) :
    op = false := by
  cases op with
  | false => rfl
  | true => exact absurd ((hok.status task ht).mpr rfl) hne

/-- Without an operation, what is asked is that no task is completed. -/
theorem EntryOk.of_active {t : Nat} {e : Entry} {op : Bool} (hop : op = false)
    (h : ∀ task, e.task = some task → task.status ≠ .completed) : EntryOk op t e where
  status task ht := by
    rw [hop]
    exact ⟨fun hc => absurd hc (h task ht), fun hf => nomatch hf⟩
  operation task ht hc := absurd hc (h task ht)
  journal _ := hop

/-- A task that was not completed gets another status that is not. -/
theorem EntryOk.move {op : Bool} {t : Nat} {e e' : Entry} {task task' : Task}
    (hok : EntryOk op t e) (ht : e.task = some task) (hne : task.status ≠ .completed)
    (ht' : e'.task = some task') (hne' : task'.status ≠ .completed) :
    EntryOk op t e' := by
  refine .of_active (hok.no_operation ht hne) fun x hx => ?_
  obtain rfl := Option.some.inj (ht'.symm.trans hx)
  exact hne'

theorem EntryOk.of_eq {op : Bool} {t : Nat} {e e' : Entry} (hok : EntryOk op t e)
    (ht : e'.task = e.task) (hj : e'.journal = e.journal) : EntryOk op t e' where
  status task h := hok.status task (ht ▸ h)
  operation task h := hok.operation task (ht ▸ h)
  journal h := hok.journal (hj ▸ h)

theorem Task.not_completed {task : Task} {status : Status}
    (h : task.status = status) (hne : status ≠ .completed) :
    task.status ≠ .completed :=
  h ▸ hne

theorem statusForControl_ne_completed (c : Option Control) :
    statusForControl c ≠ .completed := by
  rcases c with _ | c | c <;> decide

theorem EntryOk.recoverExpired {op : Bool} {t : Nat} {e : Entry}
    (hok : EntryOk op t e) (now : Nat) : EntryOk op t (recoverExpired now e) := by
  unfold Downloader.recoverExpired
  split
  · exact hok
  · next task ht =>
      split
      · next hrun =>
          split
          · exact hok.move ht (Task.not_completed hrun (by decide)) rfl
              (statusForControl_ne_completed _)
          · exact hok
      · exact hok.of_eq rfl rfl

theorem EntryOk.requeueOwned {op : Bool} {t : Nat} {e : Entry}
    (hok : EntryOk op t e) (now w : Nat) : EntryOk op t (requeueOwned now w e) := by
  unfold Downloader.requeueOwned
  split
  · next task ht =>
      obtain ⟨hrow, hrun, -⟩ := Entry.held_eq_some.mp ht
      exact hok.move hrow (Task.not_completed hrun (by decide)) rfl
        (statusForControl_ne_completed _)
  · split
    · exact hok.of_eq rfl rfl
    · exact hok

/-- The statements that neither complete a publication nor create a task. -/
theorem Change.entryOk {now t : Nat} {st : Statement} {op : Bool} {e e' : Entry}
    (h : Change now st t e e') (hok : EntryOk op t e)
    (hrecover : st = .recoverUnpublished t → e.journal ≠ none)
    (hfail : ∀ code message, st = .failRecovery t code message →
      e.task = none ∨ e.journal ≠ none)
    (hto : ∀ u sources toStatus reset, st = .transitionDownloadTask u sources toStatus reset →
      toStatus ≠ .completed ∧ .completed ∉ sources)
    (hfinal : ∀ j mode, st = .finalizePublish j mode → e' = e)
    (hcreate : ∀ sha256, st ≠ .createDownloadTask sha256) : EntryOk op t e' := by
  cases h with
  | same => exact hok
  | claim h =>
      obtain ⟨task, ht, rfl⟩ := Option.map_eq_some_iff.mp h
      obtain ⟨hrow, hqueued, -⟩ := claimable_eq_some.mp ht
      exact hok.move hrow (Task.not_completed hqueued (by decide)) rfl
        (by simp)
  | owner h =>
      obtain ⟨task, task', ht, ht', hstatus, -⟩ := OwnerStatement.exec_spec h
      obtain ⟨hrow, hrun, -⟩ := Entry.owned_eq_some.mp ht
      exact hok.move hrow (Task.not_completed hrun (by decide)) ht'
        (Task.not_completed (hstatus.trans hrun) (by decide))
  | beginPublish h =>
      obtain ⟨task, ht, rfl⟩ := Option.map_eq_some_iff.mp h
      obtain ⟨hrow, hrun, -⟩ := Entry.owned_eq_some.mp ht
      exact hok.move hrow (Task.not_completed hrun (by decide)) rfl
        (Task.not_completed hrun (by decide))
  | finalizePublish =>
      rw [hfinal _ _ rfl]
      exact hok
  | finishControl h =>
      obtain ⟨task, ht, rfl⟩ := Option.map_eq_some_iff.mp h
      obtain ⟨hrow, hrun, -⟩ := Entry.held_eq_some.mp ht
      refine hok.move hrow (Task.not_completed hrun (by decide)) rfl ?_
      dsimp only
      split <;> decide
  | failOrRetry h =>
      obtain ⟨task, ht, rfl⟩ := Option.map_eq_some_iff.mp h
      obtain ⟨hrow, hrun, -⟩ := Entry.held_eq_some.mp ht
      refine hok.move hrow (Task.not_completed hrun (by decide)) rfl ?_
      dsimp only
      split <;> decide
  | recoverUnpublished h =>
      obtain ⟨task, -, rfl⟩ := Option.map_eq_some_iff.mp h
      refine .of_active (hok.journal (hrecover rfl)) fun x hx => ?_
      obtain rfl := Option.some.inj hx
      exact statusForControl_ne_completed _
  | failRecovery =>
      rcases hfail _ _ rfl with hnone | hj
      · refine ⟨fun x hx => ?_, fun x hx => ?_, fun hj => absurd rfl hj⟩ <;>
        · rw [Downloader.failRecovery, hnone] at hx
          cases hx
      · refine .of_active (hok.journal hj) fun x hx => ?_
        obtain ⟨task, -, rfl⟩ := Option.map_eq_some_iff.mp hx
        simp
  | recoverExpired => exact hok.recoverExpired now
  | requeueOwned => exact hok.requeueOwned now _
  | request h =>
      obtain ⟨task, ht, rfl⟩ := Option.map_eq_some_iff.mp h
      obtain ⟨hrow, hrun⟩ := Option.filter_eq_some_iff.mp ht
      have hrun : task.status = .running := by simpa using hrun
      exact hok.move hrow (Task.not_completed hrun (by decide)) rfl
        (Task.not_completed hrun (by decide))
  | transition h =>
      obtain ⟨task, ht, rfl⟩ := Option.map_eq_some_iff.mp h
      obtain ⟨hrow, hmem⟩ := Option.filter_eq_some_iff.mp ht
      obtain ⟨hne, hsources⟩ := hto _ _ _ _ rfl
      refine hok.move hrow (fun hc => hsources ?_) rfl hne
      rw [← hc]
      simpa using hmem
  | delete h =>
      obtain ⟨task, -, rfl⟩ := Option.map_eq_some_iff.mp h
      exact ⟨fun x hx => (nomatch hx), fun x hx => (nomatch hx), fun hj => absurd rfl hj⟩
  | create => exact absurd rfl (hcreate _)

/-- The journal row of a task after a statement. -/
theorem Change.journal {now t : Nat} {st : Statement} {e e' : Entry}
    (h : Change now st t e e') :
    e'.journal = e.journal ∨ (∃ j, j.taskId = t ∧ st = .beginPublish j) ∨
      (∃ j mode, j.taskId = t ∧ st = .finalizePublish j mode ∧
        e.journal.any j.matches = true) ∨
      st = .recoverUnpublished t ∨ (∃ code message, st = .failRecovery t code message) ∨
      st = .deleteDownloadTask t ∨ e = .empty := by
  cases h with
  | beginPublish => exact .inr (.inl ⟨_, rfl, rfl⟩)
  | finalizePublish hm => exact .inr (.inr (.inl ⟨_, _, rfl, rfl, hm⟩))
  | recoverUnpublished => simp
  | failRecovery => simp
  | delete => simp
  | create he => simp [he]
  | owner h =>
      obtain ⟨_, _, _, _, _, _, _, _, hj⟩ := OwnerStatement.exec_spec h
      exact .inl hj
  | same => exact .inl rfl
  | claim h | finishControl h | failOrRetry h | request h | transition h =>
      obtain ⟨_, _, rfl⟩ := Option.map_eq_some_iff.mp h
      exact .inl rfl
  | recoverExpired =>
      unfold Downloader.recoverExpired
      split
      · exact .inl rfl
      · split
        · split <;> exact .inl rfl
        · exact .inl rfl
  | requeueOwned =>
      unfold Downloader.requeueOwned
      split
      · exact .inl rfl
      · split <;> exact .inl rfl

/-! ## The operations table -/

theorem insertOrIgnore_nodup {op : FileOperation} {ops : List FileOperation}
    (h : (ops.map (·.id)).Nodup) : ((insertOrIgnore op ops).map (·.id)).Nodup := by
  unfold insertOrIgnore
  split
  · exact h
  · next hnew =>
      refine nodup_map_concat.mpr ⟨h, fun x hx heq => hnew ?_⟩
      exact List.any_eq_true.mpr ⟨x, hx, decide_eq_true heq⟩

/-- The operation is there afterwards, whether it was inserted or ignored. -/
theorem insertOrIgnore_any (op : FileOperation) (ops : List FileOperation)
    (i : OperationId) :
    (insertOrIgnore op ops).any (·.id = i) =
      (ops.any (·.id = i) || decide (op.id = i)) := by
  unfold insertOrIgnore
  split
  · next hold =>
      by_cases hi : op.id = i
      · subst hi
        simp [hold]
      · simp [hi]
  · simp

structure OperationsOk (db : Db) : Prop where
  ids : (db.fileOperations.map (·.id)).Nodup
  given : ∀ t, db.hasOperation t = true → t < db.nextId
  entry : ∀ t, EntryOk (db.hasOperation t) t (db.entry t)

theorem OperationsOk.empty (targetPath storagePool : Nat → Nat) :
    OperationsOk (.empty targetPath storagePool) where
  ids := List.nodup_nil
  given _ h := nomatch h
  entry _ := .of_active rfl fun _ h => nomatch h

/-- The operation that a journal in order is completed with is the task's. -/
theorem TablesOk.matches {s : State} (hok : TablesOk s) {j : PublishJournal}
    (hm : (s.db.entry j.taskId).journal.any j.matches = true) :
    j.operationId = .download j.taskId ∧ j.taskId < s.db.nextId ∧
      ∃ task, (s.db.entry j.taskId).task = some task := by
  obtain ⟨row, hrow, -, hop, -⟩ := PublishJournal.of_any_matches hm
  obtain ⟨-, hrowOp, task, ht, -⟩ := hok.row _ row hrow
  refine ⟨hop.symm.trans hrowOp, Nat.lt_of_not_le fun hle => ?_, task, ht⟩
  rw [hok.fresh _ hle] at hrow
  cases hrow

theorem Runs.transition_completed {s : State} {act : Action} {t : Nat}
    {sources : List Status} {toStatus : Status} {reset : Bool}
    (h : Runs s act (.transitionDownloadTask t sources toStatus reset)) :
    toStatus ≠ .completed ∧ .completed ∉ sources := by
  obtain ⟨r, rfl, hs⟩ := h
  rcases Request.call_cases hs with ⟨_, _, h⟩ | ⟨_, _, _, _, h, hto, hsources⟩ | ⟨_, h⟩
  · cases h
  · obtain ⟨rfl, rfl, rfl, rfl⟩ := Statement.transitionDownloadTask.inj h
    refine ⟨?_, hsources⟩
    rintro rfl
    exact absurd hto (by decide)
  · cases h

theorem Unpublished.row {s : State} {t : Nat} (h : Unpublished s t) :
    (s.db.entry t).task = none ∨ (s.db.entry t).journal ≠ none := by
  rcases h with hnone | ⟨⟨j, hj, -⟩, -⟩
  · exact .inl hnone
  · exact .inr (by rw [hj]; exact Option.some_ne_none j)

/-- A statement that leaves the operations alone. -/
theorem OperationsOk.entry_exec {s : State} {act : Action} {st : Statement} {db : Db}
    (hops : OperationsOk s.db) (hok : TablesOk s) (hruns : Runs s act st)
    (hrecord : RecordFor s st) (hex : st.exec s.now s.db = some db)
    (hfinal : ∀ j mode, st = .finalizePublish j mode → db.entry = s.db.entry)
    (hcreate : ∀ sha256, st ≠ .createDownloadTask sha256) (t : Nat) :
    EntryOk (s.db.hasOperation t) t (db.entry t) := by
  have hchange := Statement.exec_change (hok.fresh _ (Nat.le_refl _)) hex t
  refine hchange.entryOk (hops.entry t) ?_ ?_ ?_ ?_ hcreate
  · rintro rfl
    rcases Unpublished.row hrecord with hnone | hj
    · -- `recover_unpublished` changes a row that is there.
      obtain ⟨e, he, -⟩ := Option.map_eq_some_iff.mp hex
      rw [Downloader.recoverUnpublished, hnone] at he
      cases he
    · exact hj
  · rintro code message rfl
    exact Unpublished.row hrecord
  · rintro u sources toStatus reset rfl
    exact hruns.transition_completed
  · rintro j mode rfl
    rw [hfinal j mode rfl]

theorem OperationsOk.exec {s : State} {act : Action} {st : Statement} {db : Db}
    (hops : OperationsOk s.db) (hok : TablesOk s) (hruns : Runs s act st)
    (hrecord : RecordFor s st) (hex : st.exec s.now s.db = some db) :
    OperationsOk db := by
  have hentry := hops.entry_exec hok hruns hrecord hex
  rcases Statement.exec_cases hex with
    ⟨_, rfl, hfinal, hcreate⟩ | ⟨j, mode, rfl, hm, rfl⟩ | ⟨sha256, rfl, rfl⟩
  · exact ⟨hops.ids, hops.given, hentry hfinal hcreate⟩
  · obtain ⟨hop, hlt, task, ht⟩ := hok.matches hm
    refine ⟨insertOrIgnore_nodup hops.ids, fun t hhas => ?_, fun t => ?_⟩
    · rw [Db.hasOperation, insertOrIgnore_any, Bool.or_eq_true] at hhas
      rcases hhas with hold | hnew
      · exact hops.given t hold
      · have heq : j.operationId = .download t := of_decide_eq_true hnew
        obtain rfl := OperationId.download.inj (hop.symm.trans heq)
        exact hlt
    · rw [Db.hasOperation, insertOrIgnore_any]
      by_cases htj : t = j.taskId
      · subst htj
        simp only [Function.update_self, hop, decide_true, Bool.or_true]
        refine ⟨fun x hx => ?_, fun x hx _ => ?_, fun hj => absurd rfl hj⟩
        · obtain ⟨_, _, rfl⟩ := Option.map_eq_some_iff.mp hx
          exact iff_of_true rfl rfl
        · obtain ⟨_, _, rfl⟩ := Option.map_eq_some_iff.mp hx
          exact congrArg some hop
      · have hne : j.operationId ≠ .download t := by
          rw [hop]
          exact fun h => htj (OperationId.download.inj h).symm
        simp only [Function.update_of_ne htj, hne, decide_false, Bool.or_false]
        exact hops.entry t
  · refine ⟨hops.ids, fun t hhas => Nat.lt_succ_of_lt (hops.given t hhas), fun t => ?_⟩
    by_cases htn : t = s.db.nextId
    · subst htn
      have hnone : s.db.hasOperation s.db.nextId = false := by
        rw [Bool.eq_false_iff]
        exact fun h => Nat.lt_irrefl _ (hops.given _ h)
      refine .of_active hnone fun x hx => ?_
      simp only [Function.update_self, Downloader.createDownloadTask,
        Option.some.injEq] at hx
      subst hx
      simp
    · simp only [Function.update_of_ne htn]
      exact hops.entry t

/-! ## Files -/

/-- A target file appears by a rename, from an attempt that has written its
journal row, or from outside. -/
theorem Step.target {s s' : State} {act : Action} (h : Step s act s') {path : Nat}
    {f : TargetFile} {j : PublishJournal} (hf : s'.targetFile path = some f)
    (hj : f.origin = some j) :
    s.targetFile path = some f ∨ ∃ a x, s.attempt a = some x ∧
      x.stage = .publishing j ∧ path = s.db.targetPath x.taskId := by
  cases h with
  | publish hx hs =>
      rcases update_eq_some hf with hold | ⟨rfl, hnew⟩
      · exact .inl hold
      · obtain rfl := Option.some.inj hnew
        obtain rfl := Option.some.inj hj
        exact .inr ⟨_, _, hx, hs, rfl⟩
  | createTarget | removeTarget =>
      rcases update_eq_some hf with hold | ⟨-, hnew⟩
      · exact .inl hold
      · cases hnew <;> cases hj
  | passRelease | passRecover => exact .inl (by simpa using hf)
  | requestWrite => exact .inl (by simpa [State.setRequest] using hf)
  | claim | move | leave | drop | lockNew | lockFree | openNew | write | owner
  | prepare | beginPublish | beginDropped | finalize | removePartial | finishControl
  | failOrRetry | ended | stop | passMove | passLock | passConfirm | passFinalize
  | passRecoverCancelled | passRemove | passFail | recoverExpired | requeueOwned
  | requestMove | requestUnlink | create | tick => exact .inl hf

/-- A target file is taken away from outside only: a rename needs a free path. -/
theorem Step.keeps_target {s s' : State} {act : Action} (h : Step s act s')
    (hact : ∀ path, act ≠ .removeTarget path) {path : Nat} {f : TargetFile}
    (hf : s.targetFile path = some f) : s'.targetFile path = some f := by
  have hfree : ∀ {q : Nat} {g : Option TargetFile}, s.targetFile q = none →
      Function.update s.targetFile q g path = some f := by
    intro q g hq
    have hne : path ≠ q := by
      rintro rfl
      cases hq.symm.trans hf
    rw [Function.update_of_ne hne, hf]
  cases h with
  | publish _ _ ht => exact hfree ht
  | createTarget ht => exact hfree ht
  | @removeTarget path => exact absurd rfl (hact path)
  | passRelease | passRecover => simpa using hf
  | requestWrite => simpa [State.setRequest] using hf
  | claim | move | leave | drop | lockNew | lockFree | openNew | write | owner
  | prepare | beginPublish | beginDropped | finalize | removePartial | finishControl
  | failOrRetry | ended | stop | passMove | passLock | passConfirm | passFinalize
  | passRecoverCancelled | passRemove | passFail | recoverExpired | requeueOwned
  | requestMove | requestUnlink | create | tick => exact hf

/-- An attempt comes to `publishing` by writing its journal row. -/
theorem Step.publishing {s s' : State} {act : Action} (h : Step s act s') {a : Nat}
    {y : Attempt} {j : PublishJournal} (hy : s'.attempt a = some y)
    (hs : y.stage = .publishing j) :
    s.attempt a = some y ∨ (s'.db.entry j.taskId).journal = some j := by
  have hset : ∀ {b : Nat} {x : Attempt} {stage : Stage},
      Function.update s.attempt b (some { x with stage := stage }) a = some y →
      s.attempt a = some y ∨ stage = .publishing j := by
    intro b x stage hy
    rcases update_eq_some hy with hold | ⟨-, hnew⟩
    · exact .inl hold
    · obtain rfl := Option.some.inj hnew
      exact .inr hs
  cases h with
  | beginPublish hx hstage hex =>
      refine (hset hy).imp_right fun heq => ?_
      obtain rfl := Stage.publishing.inj heq
      obtain ⟨e, he, rfl⟩ := Option.map_eq_some_iff.mp hex
      obtain ⟨_, _, rfl⟩ := Option.map_eq_some_iff.mp he
      simp [State.toStage, State.setAttempt, Db.setEntry]
  | move _ _ _ hnone | leave _ _ hnone =>
      refine (hset hy).imp_right fun heq => ?_
      rw [heq] at hnone
      cases hnone
  | claim =>
      rcases update_eq_some hy with hold | ⟨-, hnew⟩
      · exact .inl hold
      · obtain rfl := Option.some.inj hnew
        cases hs
  | drop | lockNew | lockFree | prepare | beginDropped | publish | finalize
  | removePartial =>
      refine (hset hy).imp_right fun heq => ?_
      cases heq
  | finishControl | failOrRetry | ended | stop =>
      rcases update_eq_some hy with hold | ⟨-, hnew⟩
      · exact .inl hold
      · cases hnew
  | passRelease | passRecover => exact .inl (by simpa using hy)
  | requestWrite => exact .inl (by simpa [State.setRequest] using hy)
  | openNew | write | owner | passMove | passLock | passConfirm | passFinalize
  | passRecoverCancelled | passRemove | passFail | recoverExpired | requeueOwned
  | requestMove | requestUnlink | create | tick | createTarget | removeTarget =>
      exact .inl hy

/-! ## The record of a publication -/

/-- The publication under journal `j` is on record. -/
def Recorded (db : Db) (j : PublishJournal) : Prop :=
  (db.entry j.taskId).journal = some j ∨ db.hasOperation j.taskId = true

theorem Statement.exec_hasOperation {now t : Nat} {db db' : Db} {st : Statement}
    (h : st.exec now db = some db') (hop : db.hasOperation t = true) :
    db'.hasOperation t = true := by
  rcases Statement.exec_cases h with ⟨_, rfl, -⟩ | ⟨_, _, -, -, rfl⟩ | ⟨_, -, rfl⟩
  · exact hop
  · rw [Db.hasOperation, insertOrIgnore_any, Bool.or_eq_true]
    exact .inl hop
  · exact hop

/-- `finalize_publish` leaves the operation where it takes the row. -/
theorem TablesOk.finalized {s : State} (hok : TablesOk s) {j : PublishJournal}
    {mode : Mode} {db : Db}
    (hex : (Statement.finalizePublish j mode).exec s.now s.db = some db)
    (hm : (s.db.entry j.taskId).journal.any j.matches = true) :
    db.hasOperation j.taskId = true := by
  simp only [Statement.exec, finalizePublish, hm, if_true, Option.some.injEq] at hex
  subst hex
  rw [Db.hasOperation, insertOrIgnore_any, (hok.matches hm).1]
  simp

/-- A statement loses a record only by recovering what was unpublished. -/
theorem Recorded.exec {s : State} {st : Statement} {db : Db} {j : PublishJournal}
    (hrec : Recorded s.db j) (hok : TablesOk s) (hrecord : RecordFor s st)
    (hex : st.exec s.now s.db = some db)
    (hpub : (s.db.entry j.taskId).journal = some j → ¬ Unpublished s j.taskId) :
    Recorded db j := by
  rcases hrec with hrow | hop
  · have hchange := Statement.exec_change (hok.fresh _ (Nat.le_refl _)) hex j.taskId
    have habsurd : (s.db.entry j.taskId).journal ≠ none := by
      rw [hrow]
      exact Option.some_ne_none j
    rcases hchange.journal with
      hsame | ⟨k, hk, rfl⟩ | ⟨k, mode, hk, rfl, hm⟩ | rfl | ⟨_, _, rfl⟩ | rfl | hempty
    · exact .inl (hsame.trans hrow)
    · exact absurd (hk ▸ hrecord) habsurd
    · rw [← hk] at hm
      exact .inr (hk ▸ hok.finalized hex hm)
    · exact absurd hrecord (hpub hrow)
    · exact absurd hrecord (hpub hrow)
    · exact absurd hrecord habsurd
    · rw [hempty] at hrow
      cases hrow
  · exact .inr (Statement.exec_hasOperation hex hop)

structure RecordsOk (s : State) : Prop where
  operations : OperationsOk s.db
  publishing : ∀ a x j, s.attempt a = some x → x.stage = .publishing j →
    Recorded s.db j
  target : ∀ path f j, s.targetFile path = some f → f.origin = some j →
    path = s.db.targetPath j.taskId ∧ (f.identity = j.identity → Recorded s.db j)

theorem Unpublished.not_publishing {s : State} {a : Nat} {x : Attempt}
    {j : PublishJournal} (hok : TablesOk s) (hx : s.attempt a = some x)
    (hs : x.stage = .publishing j) (hrow : (s.db.entry j.taskId).journal = some j) :
    ¬ Unpublished s j.taskId := by
  rintro (hnone | ⟨-, hfree⟩)
  · obtain ⟨-, -, task, ht, -⟩ := hok.row _ j hrow
    cases hnone.symm.trans ht
  · refine hfree a x j hx hs ?_
    rw [hok.made a x j hx (by rw [hs]; rfl)]
    rfl

theorem Unpublished.not_target {s : State} {f : TargetFile} {j : PublishJournal}
    (hok : TablesOk s) (hf : s.targetFile (s.db.targetPath j.taskId) = some f)
    (hid : f.identity = j.identity) (hrow : (s.db.entry j.taskId).journal = some j) :
    ¬ Unpublished s j.taskId := by
  rintro (hnone | ⟨⟨k, hk, htarget⟩, -⟩)
  · obtain ⟨-, -, task, ht, -⟩ := hok.row _ j hrow
    cases hnone.symm.trans ht
  · obtain rfl := Option.some.inj (hrow.symm.trans hk)
    refine htarget ?_
    rw [State.targetIdentity, hf, Option.map_some, hid]

theorem Step.targetPath {s s' : State} {act : Action} (h : Step s act s') :
    s'.db.targetPath = s.db.targetPath := by
  rcases h.runs with hdb | ⟨st, -, hex⟩
  · rw [hdb]
  · exact Statement.exec_targetPath hex

/-- What is on record, and published or about to be, stays on record. -/
theorem Step.recorded {s s' : State} {act : Action} {j : PublishJournal}
    (h : Step s act s') (hok : TablesOk s) (hkeeps : KeepsRecords s act)
    (hrec : Recorded s.db j)
    (hpub : (s.db.entry j.taskId).journal = some j → ¬ Unpublished s j.taskId) :
    Recorded s'.db j := by
  rcases h.runs with hdb | ⟨st, hruns, hex⟩
  · rwa [hdb]
  · have hne : st.exec s.now s.db ≠ none := by
      rw [hex]
      exact Option.some_ne_none s'.db
    exact hrec.exec hok (hkeeps st hruns hne) hex hpub

theorem RecordsOk.initial (targetPath storagePool : Nat → Nat) :
    RecordsOk (.initial targetPath storagePool) where
  operations := .empty targetPath storagePool
  publishing _ _ _ hx := nomatch hx
  target _ _ _ hf := nomatch hf

theorem RecordsOk.operations_step {s s' : State} {act : Action} (hrec : RecordsOk s)
    (hok : TablesOk s) (hkeeps : KeepsRecords s act) (h : Step s act s') :
    OperationsOk s'.db := by
  rcases h.runs with hdb | ⟨st, hruns, hex⟩
  · rw [hdb]
    exact hrec.operations
  · have hne : st.exec s.now s.db ≠ none := by
      rw [hex]
      exact Option.some_ne_none s'.db
    exact hrec.operations.exec hok hruns (hkeeps st hruns hne) hex

theorem RecordsOk.step {s s' : State} {act : Action} (hrec : RecordsOk s)
    (hok : TablesOk s) (hkeeps : KeepsRecords s act) (h : Step s act s') :
    RecordsOk s' where
  operations := hrec.operations_step hok hkeeps h
  publishing a y j hy hs := by
    rcases h.publishing hy hs with hold | hrow
    · exact h.recorded hok hkeeps (hrec.publishing a y j hold hs)
        (Unpublished.not_publishing hok hold hs)
    · exact .inl hrow
  target path f j hf hj := by
    rw [h.targetPath]
    rcases h.target hf hj with hold | ⟨a, x, hx, hs, hpath⟩
    · obtain ⟨hpath, hrecorded⟩ := hrec.target path f j hold hj
      refine ⟨hpath, fun hid => ?_⟩
      rw [hpath] at hold
      exact h.recorded hok hkeeps (hrecorded hid) (Unpublished.not_target hok hold hid)
    · refine ⟨?_, fun _ => ?_⟩
      · rw [hok.made a x j hx (by rw [hs]; rfl)]
        exact hpath
      · exact h.recorded hok hkeeps (hrec.publishing a x j hx hs)
          (Unpublished.not_publishing hok hx hs)

/-! ## Every run -/

theorem RecordsOk.reach {s : State}
    (hs : Reach Downloader.step KeepsRecords Initial s) : RecordsOk s := by
  induction hs with
  | init h =>
      obtain ⟨targetPath, storagePool, rfl⟩ := h
      exact .initial targetPath storagePool
  | step hs hkeeps hstep ih =>
      exact ih.step (TablesOk.reach hs) hkeeps (step_sound hstep)

/-- In every run that writes no journal row over another, recovers only what is
still unpublished and deletes no task with its journal row: a target is never
replaced, a published file is on record, and a task is completed exactly when
its one operation is there. -/
theorem published_once {s : State} (hs : Reach step KeepsRecords Initial s) :
    PublishedOnce s := by
  have hrec := RecordsOk.reach hs
  refine ⟨fun act s' hstep hact path f hf => ?_, fun path f j hf hj hid => ?_,
    fun t => ?_, fun t task ht => ?_⟩
  · exact (step_sound hstep).keeps_target hact hf
  · refine ((hrec.target path f j hf hj).2 hid).imp_left fun hrow => ?_
    rw [hrow]
    exact Option.some_ne_none j
  · exact List.nodup_iff_count.mp hrec.operations.ids _
  · have hentry := hrec.operations.entry t
    rw [← hentry.status task ht]
    exact ⟨And.left, fun hc => ⟨hc, hentry.operation task ht hc⟩⟩

/-- The actions that write no journal row, recover nothing and delete nothing. -/
def Action.recordless : Action → Bool
  | .attempt _ .beginPublish | .pass _ .recoverUnpublished | .pass _ .failRecovery
  | .request _ .write => false
  | _ => true

theorem KeepsRecords.of_recordless {s : State} {act : Action}
    (hact : act.recordless = true) : KeepsRecords s act := by
  intro st hruns _
  cases st with
  | beginPublish =>
      obtain ⟨_, _, rfl, -⟩ := hruns
      cases hact
  | recoverUnpublished =>
      obtain ⟨_, _, _, _, rfl, -⟩ := hruns
      cases hact
  | failRecovery =>
      obtain ⟨_, _, _, rfl, -⟩ := hruns
      cases hact
  | deleteDownloadTask =>
      obtain ⟨_, rfl, -⟩ := hruns
      cases hact
  | _ => trivial

theorem KeepsRecords.of_beginPublish {s : State} {a : Nat} {x : Attempt}
    {j : PublishJournal} (hx : s.attempt a = some x) (hs : x.stage = .prepared j)
    (hj : (s.db.entry j.taskId).journal = none) :
    KeepsRecords s (.attempt a .beginPublish) := by
  intro st hruns _
  cases st with
  | beginPublish k =>
      obtain ⟨_, y, hact, hy, hk⟩ := hruns
      obtain ⟨rfl, -⟩ := Action.attempt.inj hact
      obtain rfl := Option.some.inj (hx.symm.trans hy)
      rw [hs] at hk
      rcases hk with hk | hk
      · obtain rfl := Stage.prepared.inj hk
        exact hj
      · cases hk
  | recoverUnpublished =>
      obtain ⟨_, _, _, _, hact, -⟩ := hruns
      cases hact
  | failRecovery =>
      obtain ⟨_, _, _, hact, -⟩ := hruns
      cases hact
  | deleteDownloadTask =>
      obtain ⟨_, hact, -⟩ := hruns
      cases hact
  | _ => trivial

/-- A publication up to its operation: the file is in place, and its journal row
has been taken. -/
theorem published_once_finalized : ∃ s,
    s.targetFile 0 = some ⟨⟨7, 70, 5⟩,
      some ⟨0, .download 0, 1, 7, 70, 5, none⟩⟩ ∧
    (s.db.entry 0).journal = none ∧ PublishedOnce s := by
  obtain ⟨s₁, s₂, hrun, h₁, hp⟩ := exists_step_from_blank
    [.create none, .claim 0 1 0, .attempt 0 .checkTarget,
      .attempt 0 (.lockPartial 7 70), .attempt 0 (.resize 5),
      .attempt 0 (.prepare none)] (.attempt 0 .beginPublish)
    (fun s₁ s₂ => decide ((s₁.attempt 0).map (·.stage) =
        some (.prepared ⟨0, .download 0, 1, 7, 70, 5, none⟩) ∧
      (s₁.db.entry 0).journal = none ∧
      ((run step s₂ [.attempt 0 .publish, .attempt 0 (.finalize .single)]).map
        fun s => (s.targetFile 0, (s.db.entry 0).journal)) =
          some (some ⟨⟨7, 70, 5⟩, some ⟨0, .download 0, 1, 7, 70, 5, none⟩⟩, none)))
    (by decide)
  obtain ⟨hstage, hj, hmap⟩ := of_decide_eq_true hp
  obtain ⟨x, hx, hs⟩ := Option.map_eq_some_iff.mp hstage
  obtain ⟨s, hend, heq⟩ := Option.map_eq_some_iff.mp hmap
  have hs₁ : Reach step KeepsRecords Initial s₁ :=
    Reach.of_blank (fun a ha _ => .of_recordless (by revert a; decide)) hrun
  have hs₂ := Reach.step hs₁ (.of_beginPublish hx hs hj) h₁
  have hreach : Reach step KeepsRecords Initial s :=
    Reach.of_run hs₂ (fun a ha _ => .of_recordless (by revert a; decide)) hend
  exact ⟨s, congrArg Prod.fst heq, congrArg Prod.snd heq, published_once hreach⟩

/-- Worker 1 has written its journal row and stalls past its lease. A pass of
worker 2 reads the row, the empty target and the expired lease; then worker 1
renames, the pass finds no partial file and gives the publication up. The file
is in place, and nothing says whose it is. -/
theorem publication_unrecorded : ∃ s f j, Reach step anyStep Initial s ∧
    s.targetFile (s.db.targetPath 0) = some f ∧ f.origin = some j ∧ j.taskId = 0 ∧
    f.identity = j.identity ∧ (s.db.entry 0).journal = none ∧
    s.db.hasOperation 0 = false ∧ (s.db.entry 0).task.isSome = true := by
  obtain ⟨s, s', hrun, h, hp⟩ := exists_step_from_blank
    (publication ++ [.tick 30000, .pass 2 .start, .pass 2 .next, .pass 2 .readTarget,
      .pass 2 .checkLease, .attempt 0 .publish, .pass 2 .readPartial])
    (.pass 2 .failRecovery)
    (fun _ s' => decide (s'.targetFile (s'.db.targetPath 0) =
        some ⟨⟨7, 70, 5⟩, some ⟨0, .download 0, 1, 7, 70, 5, none⟩⟩ ∧
      (s'.db.entry 0).journal = none ∧ s'.db.hasOperation 0 = false ∧
      (s'.db.entry 0).task.isSome = true)) (by decide)
  obtain ⟨htarget, hrest⟩ := of_decide_eq_true hp
  have hs : Reach step anyStep Initial s := Reach.of_blank (fun _ _ _ => trivial) hrun
  exact ⟨s', _, _, hs.step trivial h, htarget, rfl, rfl, rfl, hrest⟩

end Zos.Downloader
