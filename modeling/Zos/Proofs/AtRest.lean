import Zos.Proofs.DownloadTables

/-!
# Downloads at rest

A task that is `paused`, `cancelled` or `failed` is at rest: it is the user's
turn. What can disturb it is a recovery pass, which works from the publish
journal and does not look at the status. So the rest lasts when no journal row
is left behind as a task comes to rest, and when a pass that writes still finds
the row it works from.
-/

namespace Zos.Downloader

open Zos.Lib

def Status.atRest : Status → Bool
  | .paused | .cancelled | .failed => true
  | _ => false

/-- The statement leaves no journal row with a task it brings to rest, and
recovers a publication only while there is a journal row of it. -/
def CleanFor (e : Entry) : Statement → Prop
  | .finishControl w _ _ => ∀ task, e.held w = some task → e.journal = none
  | .failOrRetry w _ n error m delay => ∀ task, e.held w = some task →
      (error.retryable && decide (n < m) && delay.isSome) = false →
      e.journal = none
  | .requeueOwned w => ∀ task, e.held w = some task →
      task.controlRequested ≠ none → e.journal = none
  | .transitionDownloadTask _ sources toStatus _ => ∀ task, e.task = some task →
      task.status ∈ sources → toStatus ≠ .queued → e.journal = none
  | .recoverUnpublished _ => e.journal ≠ none
  | .failRecovery _ _ _ => e.task = none ∨ e.journal ≠ none
  | _ => True

/-- The step brings no task to rest beside a journal row, and recovers no task
without one. -/
def RestsClean (s : State) (act : Action) : Prop :=
  ∀ st t, Runs s act st → st.taskId = some t ∨ st.taskId = none →
    CleanFor (s.db.entry t) st

/-- The route of a request that is about to write. -/
def Request.route : Request → Option Route
  | .loaded route _ _ | .unlinked route _ => some route
  | _ => none

/-- What a route makes of a task at rest. -/
def Route.moves : Route → Option Status → Prop
  | .resume, status | .retry, status => status = some .queued
  | .cancel, status => status = some .cancelled
  | .delete, status => status = some .cancelled ∨ status = none
  | .pause, _ => False

/-- A user moves task `t` by a request. -/
def UserMoves (s : State) (act : Action) (t : Nat) (status : Option Status) : Prop :=
  ∃ r route, act = .request r .write ∧ (s.request r).taskId = t ∧
    (s.request r).route = some route ∧ route.moves status

/-! ## One task -/

def Entry.status (e : Entry) : Option Status := e.task.map (·.status)

theorem Entry.status_eq {e : Entry} {task : Task} (h : e.task = some task) :
    e.status = some task.status := by
  rw [Entry.status, h]
  rfl

/-- A task at rest has no journal row. -/
def Quiet (e : Entry) : Prop :=
  ∀ task, e.task = some task → task.status.atRest = true → e.journal = none

theorem Quiet.of_journal {e : Entry} (h : e.journal = none) : Quiet e :=
  fun _ _ _ => h

theorem Quiet.of_status {e : Entry} {task : Task} (ht : e.task = some task)
    (h : task.status.atRest = false) : Quiet e := by
  intro x hx hrest
  obtain rfl := Option.some.inj (ht.symm.trans hx)
  cases h.symm.trans hrest

/-- What a statement that is not a request's may do. -/
structure Rests (e e' : Entry) : Prop where
  quiet : Quiet e'
  stay : ∀ task, e.task = some task → task.status.atRest = true →
    e'.status = some task.status

/-- The task was not at rest. -/
theorem Rests.of_active {e e' : Entry} {task : Task} (hquiet : Quiet e')
    (ht : e.task = some task) (h : task.status.atRest = false) : Rests e e' where
  quiet := hquiet
  stay x hx hrest := by
    obtain rfl := Option.some.inj (ht.symm.trans hx)
    cases h.symm.trans hrest

/-- A journal row shows that the task was not at rest. -/
theorem Rests.of_journal {e e' : Entry} (hquiet : Quiet e) (hj : e.journal ≠ none)
    (hquiet' : Quiet e') : Rests e e' where
  quiet := hquiet'
  stay x hx hrest := absurd (hquiet x hx hrest) hj

theorem Rests.of_eq {e e' : Entry} (hquiet : Quiet e) (ht : e'.task = e.task)
    (hj : e'.journal = e.journal) : Rests e e' where
  quiet x hx hrest := hj.trans (hquiet x (ht ▸ hx) hrest)
  stay _ hx _ := Entry.status_eq (ht.trans hx)

theorem Task.atRest_of_running {task : Task} (h : task.status = .running) :
    task.status.atRest = false := by
  rw [h]
  rfl

theorem statusForControl_atRest {c : Option Control}
    (h : (statusForControl c).atRest = true) : c ≠ none := by
  rintro rfl
  cases h

/-- The statements of the workers. -/
theorem Change.rests {now t : Nat} {st : Statement} {e e' : Entry}
    (h : Change now st t e e') (hquiet : Quiet e)
    (hclean : st.taskId = some t ∨ st.taskId = none → CleanFor e st)
    (hroute : ∀ r sources toStatus reset, st ≠ .transitionDownloadTask r sources toStatus reset)
    (hdelete : ∀ r, st ≠ .deleteDownloadTask r) : Rests e e' := by
  cases h with
  | same => exact .of_eq hquiet rfl rfl
  | claim h =>
      obtain ⟨task, ht, rfl⟩ := Option.map_eq_some_iff.mp h
      obtain ⟨hrow, hqueued, -⟩ := claimable_eq_some.mp ht
      exact .of_active (.of_status rfl rfl) hrow (by rw [hqueued]; rfl)
  | owner h =>
      obtain ⟨task, task', ht, ht', hstatus, -⟩ := OwnerStatement.exec_spec h
      obtain ⟨hrow, hrun, -⟩ := Entry.owned_eq_some.mp ht
      exact .of_active (.of_status ht' (Task.atRest_of_running (hstatus.trans hrun)))
        hrow (Task.atRest_of_running hrun)
  | beginPublish h =>
      obtain ⟨task, ht, rfl⟩ := Option.map_eq_some_iff.mp h
      obtain ⟨hrow, hrun, -⟩ := Entry.owned_eq_some.mp ht
      exact .of_active (.of_status rfl (Task.atRest_of_running hrun)) hrow
        (Task.atRest_of_running hrun)
  | finalizePublish hm =>
      obtain ⟨row, hrow, -⟩ := PublishJournal.of_any_matches hm
      exact .of_journal hquiet (by rw [hrow]; exact Option.some_ne_none row)
        (.of_journal rfl)
  | finishControl h =>
      obtain ⟨task, ht, rfl⟩ := Option.map_eq_some_iff.mp h
      obtain ⟨hrow, hrun, -⟩ := Entry.held_eq_some.mp ht
      exact .of_active (.of_journal (hclean (.inl rfl) task ht)) hrow
        (Task.atRest_of_running hrun)
  | @failOrRetry w _ n m error delay _ _ h =>
      obtain ⟨task, ht, rfl⟩ := Option.map_eq_some_iff.mp h
      obtain ⟨hrow, hrun, -⟩ := Entry.held_eq_some.mp ht
      refine .of_active ?_ hrow (Task.atRest_of_running hrun)
      cases hretry : error.retryable && decide (n < m) && delay.isSome with
      | false => exact .of_journal (hclean (.inl rfl) task ht hretry)
      | true => exact .of_status rfl rfl
  | recoverUnpublished h =>
      obtain ⟨task, -, rfl⟩ := Option.map_eq_some_iff.mp h
      exact .of_journal hquiet (hclean (.inl rfl)) (.of_journal rfl)
  | failRecovery =>
      rcases hclean (.inl rfl) with hnone | hj
      · refine ⟨.of_journal rfl, fun x hx => ?_⟩
        cases hnone.symm.trans hx
      · exact .of_journal hquiet hj (.of_journal rfl)
  | recoverExpired =>
      unfold Downloader.recoverExpired
      split
      · exact .of_eq hquiet rfl rfl
      · next task ht =>
          split
          · next hrun =>
              split
              · next hexpired =>
                  exact .of_active (.of_journal hexpired.2) ht
                    (Task.atRest_of_running hrun)
              · exact .of_eq hquiet rfl rfl
          · exact .of_eq hquiet rfl rfl
  | requeueOwned =>
      unfold Downloader.requeueOwned
      split
      · next task ht =>
          obtain ⟨hrow, hrun, -⟩ := Entry.held_eq_some.mp ht
          refine .of_active ?_ hrow (Task.atRest_of_running hrun)
          intro x hx hrest
          obtain rfl := Option.some.inj hx
          exact hclean (.inr rfl) task ht (statusForControl_atRest hrest)
      · split <;> exact .of_eq hquiet rfl rfl
  | request h =>
      obtain ⟨task, ht, rfl⟩ := Option.map_eq_some_iff.mp h
      obtain ⟨hrow, hrun⟩ := Option.filter_eq_some_iff.mp ht
      have hrun : task.status = .running := by simpa using hrun
      exact .of_active (.of_status rfl (Task.atRest_of_running hrun)) hrow
        (Task.atRest_of_running hrun)
  | transition => exact absurd rfl (hroute _ _ _ _)
  | delete => exact absurd rfl (hdelete _)
  | create he => exact ⟨.of_status rfl rfl, fun x hx => by rw [he] at hx; cases hx⟩

/-! ## A step -/

/-- The write of a request, by its route. -/
theorem Request.route_cases {q : Request} {st : Statement} (h : q.call = some st) :
    (∃ c, st = .requestDownloadTaskControl q.taskId c) ∨
      (∃ route sources toStatus reset, q.route = some route ∧
        st = .transitionDownloadTask q.taskId sources toStatus reset ∧
        (route.moves (some toStatus) ∨ sources = [.queued])) ∨
      q.route = some .delete ∧ st = .deleteDownloadTask q.taskId := by
  cases Request.calls h with
  | pauseRunning | cancelRunning => exact .inl ⟨_, rfl⟩
  | pause => exact .inr (.inl ⟨_, _, _, _, rfl, rfl, .inr rfl⟩)
  | resume | cancel | retry | retryUnlinked =>
      exact .inr (.inl ⟨_, _, _, _, rfl, rfl, .inl rfl⟩)
  | delete => exact .inr (.inl ⟨_, _, _, _, rfl, rfl, .inl (.inl rfl)⟩)
  | deleteUnlinked => exact .inr (.inr ⟨rfl, rfl⟩)

/-- A transition moves a task at rest only on behalf of a user, and leaves no
journal row with a task it brings to rest. -/
theorem transition_rests {s : State} {act : Action} {t u : Nat}
    {sources : List Status} {toStatus : Status} {reset : Bool} {e' : Entry}
    (hruns : Runs s act (.transitionDownloadTask u sources toStatus reset))
    (hclean : u = t →
      CleanFor (s.db.entry t) (.transitionDownloadTask u sources toStatus reset))
    (hquiet : Quiet (s.db.entry t))
    (h : Change s.now (.transitionDownloadTask u sources toStatus reset) t (s.db.entry t) e') :
    Quiet e' ∧ ∀ task, (s.db.entry t).task = some task →
      task.status.atRest = true →
      e'.status = some task.status ∨ UserMoves s act t e'.status := by
  obtain ⟨r, rfl, hcall⟩ := hruns
  generalize he : s.db.entry t = e at h hclean hquiet
  cases h with
  | same =>
      exact ⟨hquiet, fun task ht _ => .inl (Entry.status_eq ht)⟩
  | transition h =>
      obtain ⟨task, ht, rfl⟩ := Option.map_eq_some_iff.mp h
      obtain ⟨hrow, hmem⟩ := Option.filter_eq_some_iff.mp ht
      have hmem : task.status ∈ sources := by simpa using hmem
      refine ⟨?_, ?_⟩
      · intro x hx hrest
        obtain rfl := Option.some.inj hx
        refine hclean rfl task hrow hmem ?_
        rintro rfl
        cases hrest
      · intro x hx hrest
        obtain rfl := Option.some.inj (hrow.symm.trans hx)
        rcases Request.route_cases hcall with
          ⟨_, h⟩ | ⟨route, _, _, _, hroute, heq, hmoves⟩ | ⟨_, h⟩
        · cases h
        · obtain ⟨rfl, rfl, rfl, rfl⟩ := Statement.transitionDownloadTask.inj heq
          rcases hmoves with hmoves | rfl
          · exact .inr ⟨r, route, rfl, rfl, hroute, hmoves⟩
          · rw [List.mem_singleton.mp hmem] at hrest
            cases hrest
        · cases h

theorem delete_rests {s : State} {act : Action} {t u : Nat} {e' : Entry}
    (hruns : Runs s act (.deleteDownloadTask u)) (hquiet : Quiet (s.db.entry t))
    (h : Change s.now (.deleteDownloadTask u) t (s.db.entry t) e') :
    Quiet e' ∧ ∀ task, (s.db.entry t).task = some task →
      task.status.atRest = true →
      e'.status = some task.status ∨ UserMoves s act t e'.status := by
  obtain ⟨r, rfl, hcall⟩ := hruns
  generalize he : s.db.entry t = e at h hquiet
  cases h with
  | same =>
      exact ⟨hquiet, fun task ht _ => .inl (Entry.status_eq ht)⟩
  | delete h =>
      obtain ⟨task, ht, rfl⟩ := Option.map_eq_some_iff.mp h
      refine ⟨.of_journal rfl, fun x hx _ => .inr ?_⟩
      rcases Request.route_cases hcall with
        ⟨_, h⟩ | ⟨_, _, _, _, _, h, _⟩ | ⟨hroute, heq⟩
      · cases h
      · cases h
      · obtain rfl := Statement.deleteDownloadTask.inj heq
        exact ⟨r, .delete, rfl, rfl, hroute, .inr rfl⟩

theorem Step.rests {s s' : State} {act : Action} (hok : TablesOk s)
    (h : Step s act s') (hclean : RestsClean s act) (t : Nat)
    (hquiet : Quiet (s.db.entry t)) :
    Quiet (s'.db.entry t) ∧ ∀ task, (s.db.entry t).task = some task →
      task.status.atRest = true →
      (s'.db.entry t).status = some task.status ∨
        UserMoves s act t (s'.db.entry t).status := by
  rcases h.change (hok.fresh _ (Nat.le_refl _)) t with heq | ⟨st, hruns, hchange⟩
  · rw [heq]
    exact ⟨hquiet, fun task ht _ => .inl (Entry.status_eq ht)⟩
  · cases st with
    | transitionDownloadTask u sources toStatus reset =>
        refine transition_rests hruns (fun hu => ?_) hquiet hchange
        exact hclean _ t hruns (.inl (congrArg some hu))
    | deleteDownloadTask u => exact delete_rests hruns hquiet hchange
    | _ =>
        have hrests := hchange.rests hquiet (hclean _ t hruns)
          (fun _ _ _ _ h => nomatch h) (fun _ h => nomatch h)
        exact ⟨hrests.quiet, fun task ht hrest => .inl (hrests.stay task ht hrest)⟩

/-! ## Every run -/

theorem quiet_of_reach {s : State} (hs : Reach step RestsClean Initial s)
    (t : Nat) : Quiet (s.db.entry t) := by
  induction hs with
  | init h =>
      obtain ⟨targetPath, storagePool, rfl⟩ := h
      exact .of_journal rfl
  | step hs hclean hstep ih =>
      exact ((step_sound hstep).rests (TablesOk.reach hs) hclean t ih).1

/-- In every run that brings no task to rest beside a journal row and recovers
no task without one: a task that is `paused`, `cancelled` or `failed` keeps
that status, unless a user resumes it or retries it, cancels it or deletes it. -/
theorem rest_is_kept {s s' : State} {act : Action} {t : Nat} {task : Task}
    (hs : Reach step RestsClean Initial s) (hclean : RestsClean s act)
    (h : step s act = some s') (ht : (s.db.entry t).task = some task)
    (hrest : task.status.atRest = true) :
    (s'.db.entry t).status = some task.status ∨
      UserMoves s act t (s'.db.entry t).status :=
  ((step_sound h).rests (TablesOk.reach hs) hclean t (quiet_of_reach hs t)).2 task ht
    hrest

/-- Enough for a clean step, where no user writes: an attempt that ends has no journal row, and a
pass that recovers still has one. -/
def EndsCleanly (s : State) : Action → Prop
  | .attempt a .finishControl | .attempt a (.failOrRetry _ _) =>
      ∀ x ∈ s.attempt a, (s.db.entry x.taskId).journal = none
  | .pass w .recoverUnpublished =>
      match s.pass w with
      | .confirmed journal _ _ => (s.db.entry journal.taskId).journal ≠ none
      | _ => True
  | .pass _ .failRecovery | .requeueOwned _ | .request _ .write => False
  | _ => True

instance (s : State) (act : Action) : Decidable (EndsCleanly s act) := by
  unfold EndsCleanly
  split
  · infer_instance
  · infer_instance
  · split <;> infer_instance
  all_goals infer_instance

theorem EndsCleanly.restsClean {s : State} {act : Action} (h : EndsCleanly s act) :
    RestsClean s act := by
  intro st t hruns ht
  have htask (u : Nat) (hu : st.taskId = some u) : u = t := by
    rcases ht with ht | ht <;> simp_all
  cases st with
  | finishControl =>
      obtain ⟨a, x, rfl, hx, -, rfl, -⟩ := hruns
      exact fun _ _ => htask _ rfl ▸ h x hx
  | failOrRetry =>
      obtain ⟨a, x, n, rfl, hx, -, rfl, -⟩ := hruns
      exact fun _ _ _ => htask _ rfl ▸ h x hx
  | recoverUnpublished =>
      obtain ⟨w, journal, task, rest, rfl, rfl, hpass⟩ := hruns
      rw [EndsCleanly, hpass] at h
      exact htask _ rfl ▸ h
  | failRecovery =>
      obtain ⟨_, _, _, rfl, -⟩ := hruns
      cases h
  | transitionDownloadTask =>
      obtain ⟨_, rfl, -⟩ := hruns
      cases h
  | requeueOwned =>
      obtain rfl : act = _ := hruns
      cases h
  | _ => trivial

/-- The first task fails before it has a journal row; the worker of a second one is gone behind its
own, and a pass finds that. -/
def failedBeside : List Action :=
  [.create none, .claim 0 1 0, .attempt 0 .checkTarget,
    .attempt 0 (.fail ⟨.storage, "no space", false⟩), .attempt 0 (.readControl true),
    .attempt 0 (.failOrRetry 5 2000), .create none, .claim 1 1 1, .attempt 1 .checkTarget,
    .attempt 1 (.lockPartial 7 70), .attempt 1 (.resize 5), .attempt 1 (.prepare none),
    .attempt 1 .beginPublish, .attempt 1 .stop, .tick 30000, .pass 2 .start, .pass 2 .next,
    .pass 2 .readTarget, .pass 2 .checkLease, .pass 2 .readPartial, .pass 2 .lock, .pass 2 .recheck]

theorem rest_is_kept_beside : ∃ s s', step s (.pass 2 .recoverUnpublished) = some s' ∧
    (s.db.entry 1).status = some .running ∧ (s'.db.entry 1).status = some .queued ∧
    (s.db.entry 0).status = some .failed ∧ (s'.db.entry 0).status = some .failed := by
  obtain ⟨s, hrun, hs⟩ := exists_run (guarded step EndsCleanly) .blank failedBeside
    (fun s => decide (EndsCleanly s (.pass 2 .recoverUnpublished) ∧
      (s.db.entry 0).status = some .failed ∧ (s.db.entry 1).status = some .running ∧
      ∃ s' ∈ step s (.pass 2 .recoverUnpublished), (s'.db.entry 1).status = some .queued))
    (by decide)
  obtain ⟨hclean, hfailed, hrunning, s', h, hqueued⟩ := of_decide_eq_true hs
  have hreach : Reach step RestsClean Initial s :=
    .of_guarded (fun _ _ => EndsCleanly.restsClean) (.init State.blank_initial) hrun
  obtain ⟨task, ht, hstatus⟩ := Option.map_eq_some_iff.mp hfailed
  refine ⟨s, s', h, hrunning, hqueued, hfailed, ?_⟩
  rcases rest_is_kept hreach hclean.restsClean h ht (by rw [hstatus]; rfl) with hkept | hmoves
  · rw [hkept, hstatus]
  · obtain ⟨_, _, hact, -⟩ := hmoves
    cases hact

/-- The rename of `publish` fails, so the task ends `failed` with its journal row
still there; the next pass finds no target and the partial file in place, and
queues the failed task again. -/
theorem failed_task_requeued : ∃ s s', Reach step anyStep Initial s ∧
    step s (.pass 2 .recoverUnpublished) = some s' ∧
    (s.db.entry 0).status = some .failed ∧
    (s'.db.entry 0).status = some .queued := by
  obtain ⟨s, s', hrun, h, hp⟩ := exists_step_from_blank
    (publication ++ [.attempt 0 (.fail ⟨.storage, "rename failed", false⟩),
      .attempt 0 (.readControl true), .attempt 0 (.failOrRetry 5 2000),
      .pass 2 .start, .pass 2 .next, .pass 2 .readTarget, .pass 2 .checkLease,
      .pass 2 .readPartial, .pass 2 .lock, .pass 2 .recheck])
    (.pass 2 .recoverUnpublished)
    (fun s s' => decide ((s.db.entry 0).status = some .failed ∧
      (s'.db.entry 0).status = some .queued)) (by decide)
  exact ⟨s, s', Reach.of_blank (fun _ _ _ => trivial) hrun, h, of_decide_eq_true hp⟩

end Zos.Downloader
