import Zos.Proofs.DownloadTables

/-!
# Accepted pause and cancel requests

While a task runs, its `control_requested` column says what the accepted
requests amount to: nothing, a pause, or a cancel once there was one. Each way
out of `running` clears the column. The recovery statements take the new
status from the column itself; `finish_control` and `fail_or_retry` carry a
decision that was read in an earlier call, and are right when the column still
says what was read.
-/

namespace Zos.Downloader

open Zos.Lib

/-- The request that stands after these were accepted. -/
def wanted (accepted : List Control) : Option Control :=
  if .cancel ∈ accepted then some .cancel
  else if accepted = [] then none
  else some .pause

/-- The status the accepted requests ask for. -/
def askedStatus (accepted : List Control) : Status :=
  if .cancel ∈ accepted then .cancelled else .paused

/-- The column still holds the request on which the statement was decided:
`finish_control` on the one it is about to answer, `fail_or_retry` and
`fail_recovery` on none. -/
def FreshFor (e : Entry) : Statement → Prop
  | .finishControl w _ cancelled => ∀ task, e.held w = some task →
      task.controlRequested = some (if cancelled then .cancel else .pause)
  | .failOrRetry w _ _ _ _ _ => ∀ task, e.held w = some task →
      task.controlRequested = none
  | .failRecovery _ _ _ => ∀ task, e.task = some task → task.status = .running →
      task.controlRequested = none
  | _ => True

/-- The step's decision is made on the control request it finds. -/
def DecidesFresh (s : State) (act : Action) : Prop :=
  ∀ st t, Runs s act st → st.taskId = some t → FreshFor (s.db.entry t) st

/-! ## One task -/

/-- The column agrees with the accepted requests. -/
def Agrees (e : Entry) (accepted : List Control) : Prop :=
  ∀ task, e.task = some task → task.status = .running →
    task.controlRequested = wanted accepted

/-- A step that takes a task from `e` to `e'` and its accepted requests from
`l` to `l'` loses none of them. -/
structure Answers (e : Entry) (l : List Control) (e' : Entry) (l' : List Control) :
    Prop where
  agrees : Agrees e' l'
  exit : ∀ task, e.task = some task → task.status = .running →
    l <+: l' ∧ ∃ task', e'.task = some task' ∧
      (task'.status = .running ∨ task'.status = .completed ∨ l' = [] ∨
        task'.status = askedStatus l')

theorem statusForControl_wanted {l : List Control} (hl : l ≠ []) :
    statusForControl (wanted l) = askedStatus l := by
  unfold wanted askedStatus
  rw [if_neg hl]
  split <;> rfl

theorem wanted_eq_none {l : List Control} (h : wanted l = none) : l = [] := by
  unfold wanted at h
  split at h
  · cases h
  · split at h
    · assumption
    · cases h

theorem askedStatus_of_wanted {l : List Control} {cancelled : Bool}
    (h : wanted l = some (if cancelled then .cancel else .pause)) :
    askedStatus l = if cancelled then .cancelled else .paused := by
  have hl : l ≠ [] := by
    rintro rfl
    cases h
  rw [← statusForControl_wanted hl, h]
  cases cancelled <;> rfl

/-- A cancel sticks, and a pause counts when there was no cancel. -/
theorem wanted_append (l : List Control) (c : Control) :
    wanted (l ++ [c]) = if wanted l = some .cancel then some .cancel else some c := by
  have hcancel : wanted l = some .cancel ↔ Control.cancel ∈ l := by
    unfold wanted
    split
    · simpa
    · split <;> simpa
  rw [if_congr hcancel rfl rfl]
  cases c <;> by_cases h : Control.cancel ∈ l <;> simp [wanted, h]

section Answers

variable {e e' : Entry} {l : List Control}

/-- The task goes on running and its column is not touched. -/
theorem Agrees.keep (h : Agrees e l) {task task' : Task} (ht : e.task = some task)
    (ht' : e'.task = some task') (hstatus : task'.status = task.status)
    (hcontrol : task'.controlRequested = task.controlRequested) :
    Answers e l e' l where
  agrees := by
    intro x hx hrun
    obtain rfl := Option.some.inj (ht'.symm.trans hx)
    rw [hcontrol]
    exact h task ht (hstatus ▸ hrun)
  exit := by
    intro x hx hrun
    obtain rfl := Option.some.inj (ht.symm.trans hx)
    exact ⟨List.prefix_rfl, task', ht', .inl (hstatus.trans hrun)⟩

/-- The task leaves `running`, or was not running. -/
theorem Agrees.leave (h : Agrees e l) {task' : Task} (ht' : e'.task = some task')
    (hleft : task'.status ≠ .running)
    (hexit : ∀ task, e.task = some task → task.status = .running →
      task.controlRequested = wanted l → task'.status = .completed ∨ l = [] ∨
        task'.status = askedStatus l) : Answers e l e' l where
  agrees := by
    intro x hx hrun
    obtain rfl := Option.some.inj (ht'.symm.trans hx)
    exact absurd hrun hleft
  exit task ht hrun :=
    ⟨List.prefix_rfl, task', ht', .inr (hexit task ht hrun (h task ht hrun))⟩

/-- The recovery statements take the status from the column. -/
theorem Agrees.release (h : Agrees e l) {task : Task} (ht : e.task = some task)
    (now : Nat) (ht' : e'.task = some (task.release now)) : Answers e l e' l := by
  refine h.leave ht' (statusForControl_ne_running _) ?_
  intro x hx _ hcontrol
  obtain rfl := Option.some.inj (ht.symm.trans hx)
  by_cases hl : l = []
  · exact .inr (.inl hl)
  · refine .inr (.inr ?_)
    show statusForControl task.controlRequested = askedStatus l
    rw [hcontrol, statusForControl_wanted hl]

/-- A task that is not running has nothing to answer. -/
theorem Answers.of_idle {l' : List Control} (hagree : Agrees e' l')
    (h : ∀ task, e.task = some task → task.status ≠ .running) :
    Answers e l e' l' where
  agrees := hagree
  exit task ht hrun := absurd hrun (h task ht)

/-- The row is not touched. -/
theorem Agrees.untouched (h : Agrees e l) (hrow : e'.task = e.task) :
    Answers e l e' l := by
  cases ht : e.task with
  | none =>
      refine .of_idle (fun x hx => ?_) fun task hx => nomatch ht.symm.trans hx
      exact h x (hrow ▸ hx)
  | some task => exact h.keep ht (hrow.trans ht) rfl rfl

end Answers

/-- The statements of the worker, when they are decided on what they find. -/
def Statement.plain : Statement → Bool
  | .claim _ _ | .requestDownloadTaskControl _ _ | .transitionDownloadTask _ _ _ _
  | .deleteDownloadTask _ => false
  | _ => true

theorem Change.answers {now t : Nat} {st : Statement} {e e' : Entry}
    {l : List Control} (h : Change now st t e e') (hplain : st.plain = true)
    (hagree : Agrees e l) (hfresh : st.taskId = some t → FreshFor e st) :
    Answers e l e' l := by
  cases h with
  | same => exact hagree.untouched rfl
  | owner h =>
      obtain ⟨task, task', ht, ht', hstatus, -, hcontrol, -⟩ :=
        OwnerStatement.exec_spec h
      exact hagree.keep (Entry.owned_eq_some.mp ht).1 ht' hstatus hcontrol
  | beginPublish h =>
      obtain ⟨task, ht, rfl⟩ := Option.map_eq_some_iff.mp h
      exact hagree.keep (Entry.owned_eq_some.mp ht).1 rfl rfl rfl
  | finalizePublish =>
      cases ht : e.task with
      | none =>
          refine .of_idle (fun x hx => ?_) fun task hx => nomatch ht.symm.trans hx
          simp [completePublish, ht] at hx
      | some task =>
          refine hagree.leave (by simp [completePublish, ht]; rfl) ?_ ?_
          · exact Status.noConfusion
          · exact fun _ _ _ _ => .inl rfl
  | finishControl h =>
      obtain ⟨task, ht, rfl⟩ := Option.map_eq_some_iff.mp h
      have hcontrol := hfresh rfl task ht
      obtain ⟨htask, -, -⟩ := Entry.held_eq_some.mp ht
      refine hagree.leave rfl ?_ ?_
      · dsimp only
        split <;> exact Status.noConfusion
      · intro x hx _ hwanted
        obtain rfl := Option.some.inj (htask.symm.trans hx)
        exact .inr (.inr (askedStatus_of_wanted (hwanted.symm.trans hcontrol)).symm)
  | failOrRetry h =>
      obtain ⟨task, ht, rfl⟩ := Option.map_eq_some_iff.mp h
      have hcontrol := hfresh rfl task ht
      obtain ⟨htask, -, -⟩ := Entry.held_eq_some.mp ht
      refine hagree.leave rfl ?_ ?_
      · dsimp only
        split <;> exact Status.noConfusion
      · intro x hx _ hwanted
        obtain rfl := Option.some.inj (htask.symm.trans hx)
        exact .inr (.inl (wanted_eq_none (hwanted.symm.trans hcontrol)))
  | recoverUnpublished h =>
      obtain ⟨task, ht, rfl⟩ := Option.map_eq_some_iff.mp h
      exact hagree.release (Option.filter_eq_some_iff.mp ht).1 now rfl
  | failRecovery =>
      cases ht : e.task with
      | none =>
          refine .of_idle (fun x hx => ?_) fun task hx => nomatch ht.symm.trans hx
          simp [Downloader.failRecovery, ht] at hx
      | some task =>
          refine hagree.leave (by simp [Downloader.failRecovery, ht]; rfl) ?_ ?_
          · exact Status.noConfusion
          · intro x hx hrun hwanted
            exact .inr (.inl (wanted_eq_none
              (hwanted.symm.trans (hfresh rfl x hx hrun))))
  | recoverExpired =>
      unfold Downloader.recoverExpired
      split
      · exact hagree.untouched rfl
      · next task ht =>
          split
          · split
            · exact hagree.release ht now rfl
            · exact hagree.untouched rfl
          · exact hagree.untouched rfl
  | requeueOwned =>
      unfold Downloader.requeueOwned
      split
      · next task ht => exact hagree.release (Entry.held_eq_some.mp ht).1 now rfl
      · split <;> exact hagree.untouched rfl
  | create he =>
      refine .of_idle ?_ ?_
      · intro x hx hrun
        obtain rfl := Option.some.inj hx
        cases hrun
      · intro x hx
        rw [he] at hx
        cases hx
  | claim | request | transition | delete => cases hplain

/-! ## A step -/

/-- What a request's write is, by what the request has accepted with it. -/
theorem Request.accepts_cases {q : Request} {st : Statement}
    (h : q.call = some st) :
    (∃ c, q.accepts = some c ∧ st = .requestDownloadTaskControl q.taskId c) ∨
      (q.accepts = some .cancel ∧ ∃ sources reset,
        st = .transitionDownloadTask q.taskId sources .cancelled reset) ∨
      (q.accepts = none ∧ ∃ sources toStatus reset,
        st = .transitionDownloadTask q.taskId sources toStatus reset ∧
          .running ∉ sources ∧ toStatus ≠ .running) ∨
      (q.accepts = none ∧ st = .deleteDownloadTask q.taskId) := by
  cases Request.calls h with
  | pauseRunning hrun => exact .inl ⟨.pause, if_pos hrun, rfl⟩
  | pause hrun => exact .inr (.inr (.inl ⟨if_neg hrun, _, _, _, rfl, by decide, by decide⟩))
  | cancelRunning => exact .inl ⟨.cancel, rfl, rfl⟩
  | cancel => exact .inr (.inl ⟨rfl, _, _, rfl⟩)
  | resume | retry | delete | retryUnlinked =>
      exact .inr (.inr (.inl ⟨rfl, _, _, _, rfl, by decide, by decide⟩))
  | deleteUnlinked => exact .inr (.inr (.inr ⟨rfl, rfl⟩))

theorem State.accept_accepted_some {s : State} {q : Request} {c : Control}
    (h : q.accepts = some c) :
    (s.accept q).accepted =
      Function.update s.accepted q.taskId (s.accepted q.taskId ++ [c]) := by
  unfold State.accept
  rw [h]

theorem State.accept_accepted_none {s : State} {q : Request}
    (h : q.accepts = none) : (s.accept q).accepted = s.accepted := by
  unfold State.accept
  rw [h]

/-- A control request that was accepted. -/
theorem Agrees.request {e e' : Entry} {l : List Control} {c : Control}
    (hagree : Agrees e l) (h : requestDownloadTaskControl c e = some e') :
    Answers e l e' (l ++ [c]) := by
  obtain ⟨task, ht, rfl⟩ := Option.map_eq_some_iff.mp h
  obtain ⟨htask, hrun⟩ := Option.filter_eq_some_iff.mp ht
  have hrun : task.status = .running := by simpa using hrun
  refine ⟨?_, ?_⟩
  · intro x hx _
    obtain rfl := Option.some.inj hx
    show (if task.controlRequested = some .cancel then some .cancel else some c) =
      wanted (l ++ [c])
    rw [wanted_append, hagree task htask hrun]
  · intro x hx _
    exact ⟨List.prefix_append l [c], _, rfl, .inl hrun⟩

/-- A cancel that takes the task out of `running` itself. -/
theorem Answers.cancel {e e' : Entry} {l : List Control} {now : Nat}
    {sources : List Status} {reset : Bool}
    (h : transitionDownloadTask now sources .cancelled reset e = some e') :
    Answers e l e' (l ++ [.cancel]) := by
  obtain ⟨task, -, rfl⟩ := Option.map_eq_some_iff.mp h
  refine ⟨?_, ?_⟩
  · intro x hx hrun
    obtain rfl := Option.some.inj hx
    cases hrun
  · intro x hx _
    refine ⟨List.prefix_append l _, _, rfl, .inr (.inr (.inr ?_))⟩
    simp [askedStatus]

theorem requestWrite_answers {s : State} {db : Db} {q : Request} {st : Statement}
    (hfresh : s.db.entry s.db.nextId = .empty) (hs : q.call = some st)
    (hex : st.exec s.now s.db = some db) (t : Nat)
    (hagree : Agrees (s.db.entry t) (s.accepted t)) :
    Answers (s.db.entry t) (s.accepted t) (db.entry t)
      (({ s with db := db }.accept q).accepted t) := by
  have hchange := Statement.exec_change hfresh hex t
  generalize db.entry t = e' at hchange ⊢
  generalize s.db.entry t = e at hchange hagree ⊢
  rcases Request.accepts_cases hs with
    ⟨c, hc, rfl⟩ | ⟨hc, sources, reset, rfl⟩ |
      ⟨hc, sources, toStatus, reset, rfl, hsources, hto⟩ | ⟨hc, rfl⟩
  · rw [State.accept_accepted_some hc]
    cases hchange with
    | same ht =>
        have hne : t ≠ q.taskId := fun h => ht (by rw [h]; rfl)
        rw [Function.update_of_ne hne]
        exact hagree.untouched rfl
    | request h =>
        rw [Function.update_self]
        exact hagree.request h
  · rw [State.accept_accepted_some hc]
    cases hchange with
    | same ht =>
        have hne : t ≠ q.taskId := fun h => ht (by rw [h]; rfl)
        rw [Function.update_of_ne hne]
        exact hagree.untouched rfl
    | transition h =>
        rw [Function.update_self]
        exact .cancel h
  · rw [State.accept_accepted_none hc]
    cases hchange with
    | same => exact hagree.untouched rfl
    | transition h =>
        obtain ⟨task, ht, heq⟩ := Option.map_eq_some_iff.mp h
        obtain ⟨htask, hmem⟩ := Option.filter_eq_some_iff.mp ht
        rw [← heq]
        refine .of_idle ?_ ?_
        · intro x hx hrun
          obtain rfl := Option.some.inj hx
          exact absurd hrun hto
        · intro x hx hrun
          obtain rfl := Option.some.inj (htask.symm.trans hx)
          rw [hrun] at hmem
          exact hsources (by simpa using hmem)
  · rw [State.accept_accepted_none hc]
    cases hchange with
    | same => exact hagree.untouched rfl
    | delete h =>
        obtain ⟨task, ht, heq⟩ := Option.map_eq_some_iff.mp h
        obtain ⟨htask, hne⟩ := Option.filter_eq_some_iff.mp ht
        rw [← heq]
        refine .of_idle (fun x hx => nomatch hx) ?_
        intro x hx
        obtain rfl := Option.some.inj (htask.symm.trans hx)
        simpa using hne

/-- The actions that neither claim a task nor belong to a request. -/
def Action.plain : Action → Bool
  | .claim _ _ _ | .request _ _ => false
  | _ => true

theorem Runs.plain {s : State} {act : Action} {st : Statement} (h : Runs s act st)
    (hact : act.plain = true) : st.plain = true := by
  cases st with
  | claim =>
      obtain ⟨_, rfl⟩ := h
      cases hact
  | requestDownloadTaskControl | transitionDownloadTask | deleteDownloadTask =>
      obtain ⟨_, rfl, -⟩ := h
      cases hact
  | _ => rfl

theorem Step.answers {s s' : State} {act : Action} (hok : TablesOk s)
    (h : Step s act s') (hfresh : DecidesFresh s act) (t : Nat)
    (hagree : Agrees (s.db.entry t) (s.accepted t)) :
    Answers (s.db.entry t) (s.accepted t) (s'.db.entry t) (s'.accepted t) := by
  have hnext := hok.fresh _ (Nat.le_refl s.db.nextId)
  have hplain : s'.accepted = s.accepted → act.plain = true →
      Answers (s.db.entry t) (s.accepted t) (s'.db.entry t) (s'.accepted t) := by
    intro hacc hact
    rw [hacc]
    rcases h.change hnext t with heq | ⟨st, hruns, hchange⟩
    · exact hagree.untouched (by rw [heq])
    · exact hchange.answers (hruns.plain hact) hagree (hfresh st t hruns)
  cases h with
  | @claim a w u task db _ hex _ =>
      have hchange := Statement.exec_change hnext hex t
      show Answers _ _ (db.entry t) (Function.update s.accepted u [] t)
      generalize db.entry t = e' at hchange ⊢
      generalize s.db.entry t = e at hchange hagree ⊢
      cases hchange with
      | same ht =>
          have hne : t ≠ u := fun h => ht (by rw [h]; rfl)
          rw [Function.update_of_ne hne]
          exact hagree.untouched rfl
      | claim h =>
          obtain ⟨x, hx, rfl⟩ := Option.map_eq_some_iff.mp h
          obtain ⟨hrow, hqueued, -⟩ := claimable_eq_some.mp hx
          rw [Function.update_self]
          refine .of_idle ?_ ?_
          · intro y hy _
            obtain rfl := Option.some.inj hy
            rfl
          · intro y hy
            obtain rfl := Option.some.inj (hrow.symm.trans hy)
            rw [hqueued]
            exact Status.noConfusion
  | requestWrite hs hex =>
      simp only [State.setRequest, State.accept_db]
      exact requestWrite_answers hnext hs hex t hagree
  | requestMove | requestUnlink => exact hagree.untouched rfl
  | passRelease | passRecover => exact hplain (State.release_accepted ..) rfl
  | _ => exact hplain rfl rfl

/-! ## Every run -/

theorem agrees_of_reach {s : State} (hs : Reach step DecidesFresh Initial s)
    (t : Nat) : Agrees (s.db.entry t) (s.accepted t) := by
  induction hs with
  | init h =>
      obtain ⟨targetPath, storagePool, rfl⟩ := h
      exact fun task ht => nomatch ht
  | step hs hfresh hstep ih =>
      exact ((step_sound hstep).answers (TablesOk.reach hs) hfresh t ih).agrees

/-- In every run whose decisions are made on the control request they find: an
accepted request is not forgotten while its task runs, and a task for which
requests were accepted leaves `running` as `completed` or with the status the
requests ask for, `cancelled` if a cancel was among them and `paused`
otherwise. -/
theorem control_not_lost {s s' : State} {act : Action} {t : Nat} {task : Task}
    (hs : Reach step DecidesFresh Initial s) (hfresh : DecidesFresh s act)
    (h : step s act = some s') (ht : (s.db.entry t).task = some task)
    (hrun : task.status = .running) :
    s.accepted t <+: s'.accepted t ∧
      ∃ task', (s'.db.entry t).task = some task' ∧
        (s'.accepted t ≠ [] → task'.status ≠ .running →
          task'.status = .completed ∨ task'.status = askedStatus (s'.accepted t)) := by
  have hanswers := (step_sound h).answers (TablesOk.reach hs) hfresh t
    (agrees_of_reach hs t)
  obtain ⟨hgrow, task', ht', hexit⟩ := hanswers.exit task ht hrun
  refine ⟨hgrow, task', ht', fun hacc hleft => ?_⟩
  rcases hexit with hstay | hdone | hnil | hasked
  · exact absurd hstay hleft
  · exact .inl hdone
  · exact absurd hnil hacc
  · exact .inr hasked

/-- The actions that write what a thread decided before. -/
def Action.decides : Action → Bool
  | .attempt _ .finishControl | .attempt _ (.failOrRetry _ _)
  | .pass _ .failRecovery => true
  | _ => false

theorem DecidesFresh.of_not_decides {s : State} {act : Action}
    (hact : act.decides = false) : DecidesFresh s act := by
  intro st t hruns _
  cases st with
  | finishControl =>
      obtain ⟨_, _, rfl, -⟩ := hruns
      cases hact
  | failOrRetry =>
      obtain ⟨_, _, _, rfl, -⟩ := hruns
      cases hact
  | failRecovery =>
      obtain ⟨_, _, _, rfl, -⟩ := hruns
      cases hact
  | _ => trivial

/-- `finish_control` answers the request that stands in the column. -/
theorem DecidesFresh.finishControl {s : State} {a : Nat} {x : Attempt}
    {cancelled : Bool} (hx : s.attempt a = some x)
    (hstage : x.stage = .finishing cancelled)
    (hcontrol : s.controlRequested x.taskId =
      some (if cancelled then .cancel else .pause)) :
    DecidesFresh s (.attempt a .finishControl) := by
  intro st t hruns ht
  cases st with
  | finishControl w u c =>
      obtain ⟨_, _, hact, hx', -, rfl, hstage'⟩ := hruns
      obtain ⟨rfl, -⟩ := Action.attempt.inj hact
      obtain rfl := Option.some.inj (hx.symm.trans hx')
      obtain rfl := Stage.finishing.inj (hstage.symm.trans hstage')
      obtain rfl := Option.some.inj ht
      intro task htask
      simpa [State.controlRequested, (Entry.held_eq_some.mp htask).1] using hcontrol
  | failOrRetry =>
      obtain ⟨_, _, _, hact, -⟩ := hruns
      cases hact
  | failRecovery =>
      obtain ⟨_, _, _, hact, -⟩ := hruns
      cases hact
  | _ => trivial

/-- A pause is accepted while the transfer runs; the attempt reads it and
writes it. -/
theorem control_not_lost_paused : ∃ s s' task,
    step s (.attempt 0 .finishControl) = some s' ∧
    (s.db.entry 0).task = some task ∧ task.status = .running ∧
    s'.accepted 0 = [.pause] ∧ s.accepted 0 <+: s'.accepted 0 ∧
    ∃ task', (s'.db.entry 0).task = some task' ∧
      (s'.accepted 0 ≠ [] → task'.status ≠ .running →
        task'.status = .completed ∨ task'.status = askedStatus (s'.accepted 0)) := by
  obtain ⟨s, s', hrun, h, hp⟩ := exists_step_from_blank
    [.create none, .claim 0 1 0, .attempt 0 .checkTarget,
      .attempt 0 (.lockPartial 7 70), .request 0 (.receive .pause 0),
      .request 0 .write, .attempt 0 (.readControl true)]
    (.attempt 0 .finishControl)
    (fun s s' => decide (s'.accepted 0 = [.pause] ∧
      (s.db.entry 0).task.map (fun task => (task.status, task.controlRequested)) =
        some (.running, some .pause) ∧
      (s.attempt 0).map (fun x => (x.taskId, x.stage)) = some (0, .finishing false)))
    (by decide)
  obtain ⟨hacc, htask, hattempt⟩ := of_decide_eq_true hp
  obtain ⟨task, ht, heq⟩ := Option.map_eq_some_iff.mp htask
  obtain ⟨hstatus, hcontrol⟩ := Prod.mk.inj heq
  obtain ⟨x, hx, heq⟩ := Option.map_eq_some_iff.mp hattempt
  obtain ⟨hid, hstage⟩ := Prod.mk.inj heq
  have hs : Reach step DecidesFresh Initial s :=
    Reach.of_blank (fun a ha _ => .of_not_decides (by revert a; decide)) hrun
  have hfresh : DecidesFresh s (.attempt 0 .finishControl) :=
    .finishControl hx hstage (by simp [State.controlRequested, hid, ht, hcontrol])
  exact ⟨s, s', task, h, ht, hstatus, hacc, control_not_lost hs hfresh h ht hstatus⟩

/-- The attempt ends with an error and reads no control request. Before it writes
its decision, a pause is accepted; the task is queued for a retry. -/
theorem accepted_pause_lost : ∃ s s', Reach step anyStep Initial s ∧
    step s (.attempt 0 (.failOrRetry 5 2000)) = some s' ∧
    (s.db.entry 0).task.map (·.status) = some .running ∧
    s.accepted 0 = [.pause] ∧ s'.accepted 0 = [.pause] ∧
    (s'.db.entry 0).task.map (·.status) = some .queued := by
  obtain ⟨s, s', hrun, h, hp⟩ := exists_step_from_blank
    [.create none, .claim 0 1 0, .attempt 0 (.fail ⟨.connect, "", true⟩),
      .attempt 0 (.readControl true), .request 0 (.receive .pause 0),
      .request 0 .write]
    (.attempt 0 (.failOrRetry 5 2000))
    (fun s s' => decide ((s.db.entry 0).task.map (·.status) = some .running ∧
      s.accepted 0 = [.pause] ∧ s'.accepted 0 = [.pause] ∧
      (s'.db.entry 0).task.map (·.status) = some .queued)) (by decide)
  exact ⟨s, s', Reach.of_blank (fun _ _ _ => trivial) hrun, h, of_decide_eq_true hp⟩

end Zos.Downloader
