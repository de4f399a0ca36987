import Zos.Proofs.DownloadTables

/-!
# Lease fencing of downloads

A task that runs under a lease which has not run out belongs to its worker:
the statements of the other workers find the fence in their `WHERE` clause
closed and leave its status, its owner, its segments, its checksum and its
reservation alone. One statement has no fence, the `fail_recovery` of a
recovery pass, and one is meant to go through, the `finalize_publish` of a
pass that has seen the journalled file at the target.
-/

namespace Zos.Downloader

open Zos.Lib

/-- The worker whose step an action is. -/
def Action.worker (s : State) : Action → Option Nat
  | .claim _ w _ | .pass w _ | .recoverExpired w | .requeueOwned w => some w
  | .attempt a _ => (s.attempt a).map (·.workerId)
  | _ => none

/-- What the lease protects: status, owner and checksum of the row, the
segments and the reservation. -/
def Entry.guarded (e : Entry) :
    Option (Status × Option Nat × Option String) × List Segment × Option Nat :=
  (e.task.map fun task => (task.status, task.workerId, task.actualSha256),
    e.segments, e.reservation)

/-- The task runs under worker `b`, whose lease has not run out. -/
def Entry.leasedTo (e : Entry) (now b : Nat) : Prop :=
  ∃ task, e.task = some task ∧ task.live now = true ∧ task.workerId = some b

/-- A pass completes the publication of task `t`: it has seen a file of the
journalled identity at the target. -/
def FinalizesFound (s : State) (act : Action) (t : Nat) : Prop :=
  ∃ w journal task rest, act = .pass w .finalize ∧ journal.taskId = t ∧
    s.pass w = .looked journal task (some journal.identity) rest

/-- A pass runs `fail_recovery` on task `t`. -/
def FailsRecovery (s : State) (act : Action) (t : Nat) : Prop :=
  ∃ w journal rest, act = .pass w .failRecovery ∧ journal.taskId = t ∧
    (s.pass w = .vanished journal rest ∨
      ∃ target, s.pass w = .failing journal target rest)

theorem Task.live_iff {now : Nat} {task : Task} :
    task.live now = true ↔ task.status = .running ∧
      leaseOver now task.leaseExpiresAt = false := by
  simp [Task.live]

section Leased

variable {now a b : Nat} {e : Entry}

/-- Another worker's fence is closed. -/
theorem Entry.leasedTo.held_eq_none (h : e.leasedTo now b) (hab : a ≠ b) :
    e.held a = none := by
  obtain ⟨task, ht, -, hw⟩ := h
  by_contra hne
  obtain ⟨task', ht'⟩ := Option.ne_none_iff_exists'.mp hne
  obtain ⟨heq, -, hw'⟩ := Entry.held_eq_some.mp ht'
  obtain rfl := Option.some.inj (ht.symm.trans heq)
  exact hab (Option.some.inj (hw'.symm.trans hw))

theorem Entry.leasedTo.owned_eq_none (h : e.leasedTo now b) (hab : a ≠ b) :
    e.owned a = none := by
  by_contra hne
  obtain ⟨task, ht⟩ := Option.ne_none_iff_exists'.mp hne
  obtain ⟨heq, hs, hw, -⟩ := Entry.owned_eq_some.mp ht
  cases (h.held_eq_none hab).symm.trans (Entry.held_eq_some.mpr ⟨heq, hs, hw⟩)

theorem Entry.leasedTo.recoverExpired_eq (h : e.leasedTo now b) :
    recoverExpired now e = e := by
  obtain ⟨task, ht, hlive, -⟩ := h
  obtain ⟨hs, hl⟩ := Task.live_iff.mp hlive
  simp [recoverExpired, ht, hs, hl]

theorem Entry.leasedTo.requeueOwned_eq (h : e.leasedTo now b) (hab : a ≠ b) :
    requeueOwned now a e = e := by
  have hheld := h.held_eq_none hab
  obtain ⟨task, ht, -, hw⟩ := h
  simp [requeueOwned, hheld, ht, hw]

theorem Entry.leasedTo.guarded_failRecovery (h : e.leasedTo now b)
    (code : ErrorCode) (message : String) :
    (failRecovery now code message e).guarded ≠ e.guarded := by
  obtain ⟨task, ht, hlive, -⟩ := h
  have hs := (Task.live_iff.mp hlive).1
  intro heq
  have hstatus := congrArg (fun g => g.1.map (·.1)) heq
  simp [Entry.guarded, failRecovery, ht, hs] at hstatus

end Leased

theorem worker_attempt {s : State} {i a : Nat} {x : Attempt} {act : AttemptAction}
    (hx : s.attempt i = some x) (ha : (Action.attempt i act).worker s = some a) :
    x.workerId = a := by
  simpa [Action.worker, hx] using ha

/-- What `fail_recovery` leaves of the entry. -/
theorem failRecovery_entry {s s' : State} {w : Nat} {journal : PublishJournal}
    {rest : List PublishJournal} (h : step s (.pass w .failRecovery) = some s')
    (hs : s.pass w = .vanished journal rest ∨
      ∃ target, s.pass w = .failing journal target rest) :
    ∃ code message, s'.db.entry journal.taskId =
      failRecovery s.now code message (s.db.entry journal.taskId) := by
  simp only [step, stepPass] at h
  rcases hs with hs | ⟨target, hs⟩
  · rw [hs] at h
    obtain rfl := Option.some.inj h
    exact ⟨_, _, Function.update_self ..⟩
  · rw [hs] at h
    obtain rfl := Option.some.inj h
    exact ⟨_, _, Function.update_self ..⟩

/-- The statements of worker `a` on a task leased to another one: nothing, a
pass that completes a publication it has found, or `fail_recovery`. -/
theorem leased_change {s : State} {act : Action} {st : Statement} {e' : Entry}
    {a b t : Nat} (hok : TablesOk s) (hruns : Runs s act st)
    (ha : act.worker s = some a) (hl : (s.db.entry t).leasedTo s.now b) (hab : a ≠ b)
    (h : Change s.now st t (s.db.entry t) e') :
    e' = s.db.entry t ∨ FinalizesFound s act t ∨ FailsRecovery s act t := by
  cases h with
  | same => exact .inl rfl
  | claim h =>
      obtain ⟨task, ht, -⟩ := Option.map_eq_some_iff.mp h
      obtain ⟨task', ht', hlive, -⟩ := hl
      obtain ⟨heq, hq, -⟩ := claimable_eq_some.mp ht
      obtain rfl := Option.some.inj (ht'.symm.trans heq)
      cases hq.symm.trans (Task.live_iff.mp hlive).1
  | owner h =>
      obtain ⟨task, -, ht, -⟩ := OwnerStatement.exec_spec h
      obtain ⟨i, x, rfl, hx, hw, -⟩ := hruns
      obtain rfl := hw.symm.trans (worker_attempt hx ha)
      cases (hl.owned_eq_none hab).symm.trans ht
  | @beginPublish j _ _ h =>
      obtain ⟨task, ht, -⟩ := Option.map_eq_some_iff.mp h
      obtain ⟨i, x, rfl, hx, hj⟩ := hok.beginPublish hruns
      have hw : j.workerId = a := by rw [hj, ← worker_attempt hx ha]; rfl
      rw [hw] at ht
      cases (hl.owned_eq_none hab).symm.trans ht
  | @finalizePublish j _ _ hm =>
      rcases hruns with ⟨i, x, rfl, hx, hs⟩ | ⟨w, task, rest, rfl, hs⟩
      · -- The row is this attempt's journal, so the task runs under its worker.
        have hj := hok.made i x j hx (by rw [hs]; rfl)
        obtain ⟨row, hrow, -, -, hrow', -⟩ := PublishJournal.of_any_matches hm
        obtain ⟨task, ht, hlive, hw⟩ := hl
        obtain ⟨-, -, task', ht', hrun⟩ := hok.row _ row hrow
        obtain rfl := Option.some.inj (ht.symm.trans ht')
        have hw' := hrun (Task.live_iff.mp hlive).1
        have hb : row.workerId = b := Option.some.inj (hw'.symm.trans hw)
        refine absurd ?_ hab
        rw [← hb, hrow', hj, ← worker_attempt hx ha]
        rfl
      · exact .inr (.inl ⟨w, j, task, rest, rfl, rfl, hs⟩)
  | finishControl h =>
      obtain ⟨task, ht, -⟩ := Option.map_eq_some_iff.mp h
      obtain ⟨i, x, rfl, hx, hw, -⟩ := hruns
      obtain rfl := hw.symm.trans (worker_attempt hx ha)
      cases (hl.held_eq_none hab).symm.trans ht
  | failOrRetry h =>
      obtain ⟨task, ht, -⟩ := Option.map_eq_some_iff.mp h
      obtain ⟨i, x, n, rfl, hx, hw, -⟩ := hruns
      obtain rfl := hw.symm.trans (worker_attempt hx ha)
      cases (hl.held_eq_none hab).symm.trans ht
  | recoverUnpublished h =>
      obtain ⟨task, ht, -⟩ := Option.map_eq_some_iff.mp h
      obtain ⟨task', ht', hlive, -⟩ := hl
      obtain ⟨heq, hdead⟩ := Option.filter_eq_some_iff.mp ht
      obtain rfl := Option.some.inj (ht'.symm.trans heq)
      simp [hlive] at hdead
  | failRecovery => exact .inr (.inr hruns)
  | recoverExpired => exact .inl hl.recoverExpired_eq
  | requeueOwned =>
      obtain rfl : act = _ := hruns
      obtain rfl := Option.some.inj ha
      exact .inl (hl.requeueOwned_eq hab)
  | request h | transition h | delete h =>
      obtain ⟨r, rfl, -⟩ := hruns
      cases ha
  | create =>
      obtain rfl : act = _ := hruns
      cases ha

/-- For every step of a worker and every task that runs under another worker
with an unexpired lease: the step leaves the task's status, owner, segments,
checksum and reservation alone, or completes a publication whose file it has
found at the target, unless it is a `fail_recovery` of the task. -/
theorem lease_fencing_iff {s s' : State} {act : Action} {a b t : Nat}
    (hs : Reach step anyStep Initial s) (h : step s act = some s')
    (ha : act.worker s = some a) (hl : (s.db.entry t).leasedTo s.now b)
    (hab : a ≠ b) :
    (s'.db.entry t).guarded = (s.db.entry t).guarded ∨ FinalizesFound s act t ↔
      ¬FailsRecovery s act t := by
  have hok := TablesOk.reach hs
  constructor
  · rintro (hsame | ⟨w, j, task, rest, rfl, -⟩) ⟨w', j', rest', hact, rfl, hpass⟩
    · subst hact
      obtain ⟨code, message, hentry⟩ := failRecovery_entry h hpass
      exact hl.guarded_failRecovery code message (hentry ▸ hsame)
    · cases hact
  · intro hno
    rcases (step_sound h).change (hok.fresh _ (Nat.le_refl _)) t with heq | ⟨st, hruns, hchange⟩
    · exact .inl (by rw [heq])
    · rcases leased_change hok hruns ha hl hab hchange with heq | hfin | hfail
      · exact .inl (by rw [heq])
      · exact .inr hfin
      · exact absurd hfail hno

theorem Entry.leasedTo_of_map {e : Entry} {now b : Nat}
    (h : (e.task.map fun task => (task.live now, task.workerId)) =
      some (true, some b)) : e.leasedTo now b := by
  obtain ⟨task, ht, heq⟩ := Option.map_eq_some_iff.mp h
  obtain ⟨hlive, hw⟩ := Prod.mk.inj heq
  exact ⟨task, ht, hlive, hw⟩

/-- Worker 2 looks for expired leases while worker 1 runs the task. -/
theorem lease_fencing_iff_expiry : ∃ s s', step s (.recoverExpired 2) = some s' ∧
    (s.db.entry 0).leasedTo s.now 1 ∧
    ((s'.db.entry 0).guarded = (s.db.entry 0).guarded ∨
      FinalizesFound s (.recoverExpired 2) 0 ↔
        ¬FailsRecovery s (.recoverExpired 2) 0) := by
  obtain ⟨s, s', hrun, h, hp⟩ := exists_step_from_blank
    [.create none, .claim 0 1 0, .tick 10] (.recoverExpired 2)
    (fun s _ => decide (((s.db.entry 0).task.map fun task =>
      (task.live s.now, task.workerId)) = some (true, some 1))) (by decide)
  have hs := Reach.of_blank (fun _ _ _ => trivial) hrun
  have hl := Entry.leasedTo_of_map (of_decide_eq_true hp)
  exact ⟨s, s', h, hl, lease_fencing_iff hs h rfl hl (by decide)⟩

/-- Worker 1 stalls after `begin_publish` until its lease has run out. A pass of
worker 2 reads the journal, the task and the empty target. Worker 1 wakes up,
renews its lease and renames the partial file; the pass misses the partial
file and fails the task that worker 1 runs. -/
theorem fail_recovery_unfenced : ∃ s s', Reach step anyStep Initial s ∧
    step s (.pass 2 .failRecovery) = some s' ∧
    (s.db.entry 0).leasedTo s.now 1 ∧
    (s'.db.entry 0).guarded ≠ (s.db.entry 0).guarded ∧
    ¬FinalizesFound s (.pass 2 .failRecovery) 0 := by
  obtain ⟨s, s', hrun, h, hp⟩ := exists_step_from_blank
    (publication ++ [.tick 30000, .pass 2 .start, .pass 2 .next, .pass 2 .readTarget,
      .pass 2 .checkLease, .attempt 0 (.owner .extendLease), .attempt 0 .publish,
      .pass 2 .readPartial])
    (.pass 2 .failRecovery)
    (fun s s' => decide ((s'.db.entry 0).guarded ≠ (s.db.entry 0).guarded ∧
      ((s.db.entry 0).task.map fun task => (task.live s.now, task.workerId)) =
        some (true, some 1))) (by decide)
  obtain ⟨hchanged, hlease⟩ := of_decide_eq_true hp
  refine ⟨s, s', Reach.of_blank (fun _ _ _ => trivial) hrun, h,
    Entry.leasedTo_of_map hlease, hchanged, ?_⟩
  rintro ⟨_, _, _, _, hact, -⟩
  cases hact

end Zos.Downloader
