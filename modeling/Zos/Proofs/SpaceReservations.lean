import Mathlib.Algebra.Order.BigOperators.Group.List
import Mathlib.Algebra.Order.Ring.Nat
import Zos.Proofs.DownloadTables

/-!
# Space reservations of downloads

Any number of downloads, with all their statements and the writes to their partial files in any
order. The reservation of a task should be what is still to come of it, and only a running task
should have one, since `reserve_space` adds up what the others of the pool have reserved and takes
it from the space that is free now, bytes already written included.

`checkpoint_segment` takes the bytes that have been written off the reservation, `progress`, which
single transfers use, does not; and `recover_unpublished`, or a cancel request that was loaded
before the task was claimed, takes a task out of `running` with its reservation. What a task itself
knows of its bytes is its `Account`, and the reservation of a running task is always what the
account has left and is behind with: this one invariant carries all the rest.
-/

namespace Zos.Downloader

open Zos.Lib

/-! ## The machine -/

/-- Whether a task has reserved since it was claimed or began anew, what it still has to write, and
what it has written since it reserved or recorded a segment. -/
structure Account where
  reserved : Bool
  left : Nat
  behind : Nat

structure Space where
  now : Nat
  db : Db
  account : Nat → Account

inductive SpaceAction where
  | tick (milliseconds : Nat)
  | write (taskId bytes : Nat)
  | statement (st : Statement)

def Account.write (bytes : Nat) (a : Account) : Account :=
  ⟨a.reserved, a.left - bytes, a.behind + min bytes a.left⟩

/-- A task reserves what it still has to write. -/
def Statement.account (account : Nat → Account) : Statement → Nat → Account
  | .claim _ t | .owner _ t .resetTransfer => Function.update account t ⟨false, 0, 0⟩
  | .owner _ t (.reserveSpace required _ _) => Function.update account t ⟨true, required, 0⟩
  | .owner _ t (.checkpointSegment _) =>
      Function.update account t { account t with behind := 0 }
  | _ => account

def Space.step (s : Space) : SpaceAction → Option Space
  | .tick milliseconds => some { s with now := s.now + milliseconds }
  | .write t bytes =>
      some { s with account := Function.update s.account t ((s.account t).write bytes) }
  | .statement st =>
      (st.exec s.now s.db).map fun db => { s with db, account := st.account s.account }

def Space.Initial (s : Space) : Prop :=
  ∃ targetPath storagePool, s = ⟨0, .empty targetPath storagePool, fun _ => ⟨false, 0, 0⟩⟩

def Entry.runs (e : Entry) : Bool := e.task.any (·.status = .running)

/-- What the other running tasks of the pool still have to write. -/
def Space.toCome (s : Space) (taskId : Nat) : Nat :=
  ((List.range s.db.nextId).map fun t =>
    if t ≠ taskId ∧ s.db.storagePool t = s.db.storagePool taskId ∧ (s.db.entry t).runs = true then
      (s.account t).left
    else 0).sum

/-! ## What is asked of the steps -/

def Statement.Exact (s : Space) : Statement → Prop
  -- what has come is recorded before the first byte or by segments
  | .owner _ t (.progress p) => ∀ total ∈ p.totalBytes,
      (s.account t).behind = 0 ∧ total - p.receivedBytes = (s.account t).left
  | .owner _ t (.checkpointSegment c) =>
      c.total - receivedOf ((s.db.entry t).segments.map (·.checkpoint c)) = (s.account t).left
  -- the others have recorded what they have written
  | .owner _ t (.reserveSpace ..) => ∀ u < s.db.nextId, u ≠ t →
      s.db.storagePool u = s.db.storagePool t → (s.account u).behind = 0
  -- a worker that stopped while it published had no size to reserve for
  | .recoverUnpublished t => (s.db.entry t).runs = true → (s.account t).reserved = false
  | .transitionDownloadTask t _ toStatus _ =>
      toStatus ≠ .running ∧ (s.db.entry t).runs = false
  | _ => True

def Exact (s : Space) : SpaceAction → Prop
  | .statement st => st.Exact s
  | _ => True

/-- The statements that record how far a transfer of known size has come. -/
def OwnerStatement.total : OwnerStatement → Option Nat
  | .progress p => p.totalBytes
  | .checkpointSegment c => some c.total
  | _ => none

/-! ## Accounts and reservations -/

/-- The reservation of the task agrees with its account. -/
structure Account.Agrees (a : Account) (e : Entry) : Prop where
  stopped : e.runs = false → e.reservation = none
  amount : e.runs = true → e.reservation.getD 0 = a.left + a.behind
  unreserved : a.reserved = false → e.reservation = none
  worker : e.runs = true → (e.task.bind (·.workerId)).isSome

theorem Account.Agrees.of_stopped (a : Account) {e : Entry} (hruns : e.runs = false)
    (hnone : e.reservation = none) : Account.Agrees a e :=
  ⟨fun _ => hnone, fun h => absurd (hruns.symm.trans h) nofun, fun _ => hnone,
    fun h => absurd (hruns.symm.trans h) nofun⟩

/-- Nothing that matters here has changed. -/
theorem Account.Agrees.congr {a : Account} {e e' : Entry} (h : Account.Agrees a e)
    (hruns : e'.runs = e.runs) (hreservation : e'.reservation = e.reservation)
    (hworker : e'.task.bind (·.workerId) = e.task.bind (·.workerId)) : Account.Agrees a e' :=
  ⟨hruns ▸ hreservation ▸ h.stopped, hruns ▸ hreservation ▸ h.amount,
    hreservation ▸ h.unreserved, hruns ▸ hworker ▸ h.worker⟩

theorem Account.Agrees.write {a : Account} {e : Entry} (h : Account.Agrees a e) (bytes : Nat) :
    Account.Agrees (a.write bytes) e := by
  refine ⟨h.stopped, fun hruns => ?_, h.unreserved, h.worker⟩
  rw [h.amount hruns]
  simp only [Account.write]
  omega

theorem Statement.account_of_ne {account : Nat → Account} {st : Statement} {t : Nat}
    (h : st.taskId ≠ some t) : st.account account t = account t := by
  have hne {u : Nat} (hu : st.taskId = some u) : t ≠ u := fun heq => h (heq ▸ hu)
  unfold Statement.account
  split
  · exact Function.update_of_ne (hne rfl) ..
  · exact Function.update_of_ne (hne rfl) ..
  · exact Function.update_of_ne (hne rfl) ..
  · exact Function.update_of_ne (hne rfl) ..
  · rfl

theorem runs_of_owned {e : Entry} {w : Nat} {task : Task} (h : e.owned w = some task) :
    e.runs = true := by
  obtain ⟨htask, hstatus, -⟩ := Entry.owned_eq_some.mp h
  simp [Entry.runs, htask, hstatus]

theorem OwnerStatement.agrees {s : Space} {w t other : Nat} {st : OwnerStatement} {e' : Entry}
    (h : st.exec s.now w other (s.db.entry t) = some e')
    (hok : Account.Agrees (s.account t) (s.db.entry t))
    (hexact : (Statement.owner w t st).Exact s) :
    Account.Agrees ((Statement.owner w t st).account s.account t) e' := by
  obtain ⟨task, task', howned, htask', hstatus, hworker, -⟩ := OwnerStatement.exec_spec h
  obtain ⟨htask, hrunning, hmine, -⟩ := Entry.owned_eq_some.mp howned
  have hruns : e'.runs = (s.db.entry t).runs := by simp [Entry.runs, htask, htask', hstatus]
  have hsame : e'.task.bind (·.workerId) = (s.db.entry t).task.bind (·.workerId) := by
    simp [htask, htask', hworker]
  have hworker' : (e'.task.bind (·.workerId)).isSome := by simp [htask', hworker, hmine]
  have hruns' : e'.runs = true := by simp [Entry.runs, htask', hstatus, hrunning]
  have hstopped : e'.runs = false → e'.reservation = none := by simp [hruns']
  cases st with
  | extendLease | progress p | renewPhase phase | setActualChecksum checksum
  | replaceSegments segments =>
      obtain ⟨_, _, rfl⟩ := Option.map_eq_some_iff.mp h
      exact hok.congr hruns rfl hsame
  | resetTransfer =>
      obtain ⟨_, _, rfl⟩ := Option.map_eq_some_iff.mp h
      simp only [Statement.account, Function.update_self]
      exact ⟨hstopped, fun _ => rfl, fun _ => rfl, fun _ => hworker'⟩
  | checkpointSegment c =>
      obtain ⟨_, _, rfl⟩ := Option.map_eq_some_iff.mp h
      simp only [Statement.account, Function.update_self]
      refine ⟨hstopped, fun _ => ?_, fun hnone => ?_, fun _ => hworker'⟩
      · cases hreservation : (s.db.entry t).reservation with
        | none =>
            have hamount := hok.amount (runs_of_owned howned)
            rw [hreservation, Option.getD_none] at hamount
            change 0 = (s.account t).left + 0
            omega
        | some reserved => exact hexact
      · simp [hok.unreserved hnone]
  | reserveSpace required available minimumFree =>
      simp only [OwnerStatement.exec, Downloader.reserveSpace] at h
      split at h
      · cases h
      · obtain ⟨_, _, rfl⟩ := Option.map_eq_some_iff.mp h
        simp only [Statement.account, Function.update_self]
        exact ⟨hstopped, fun _ => rfl, by simp, fun _ => hworker'⟩

theorem release_stopped (now : Nat) (task : Task) : (task.release now).status ≠ .running := by
  unfold Task.release statusForControl
  dsimp only
  split <;> exact nofun

/-- An entry whose task, if there is one, has been taken out of `running`. -/
theorem runs_eq_false {e : Entry} (h : ∀ task, e.task = some task → task.status ≠ .running) :
    e.runs = false := by
  cases htask : e.task with
  | none => simp [Entry.runs, htask]
  | some task => simp [Entry.runs, htask, h task htask]

theorem Change.agrees {s : Space} {st : Statement} {t : Nat} {e' : Entry}
    (h : Change s.now st t (s.db.entry t) e') (hok : Account.Agrees (s.account t) (s.db.entry t))
    (hexact : st.Exact s) : Account.Agrees (st.account s.account t) e' := by
  cases h with
  | same ht =>
      rw [Statement.account_of_ne ht]
      exact hok
  | claim h =>
      obtain ⟨task, htask, rfl⟩ := Option.map_eq_some_iff.mp h
      obtain ⟨htask, hqueued⟩ := Option.filter_eq_some_iff.mp htask
      have hnone : (s.db.entry t).reservation = none := hok.stopped (runs_eq_false fun other h => by
        cases htask.symm.trans h
        have hstatus : task.status = .queued := by simpa using (of_decide_eq_true hqueued).1
        exact hstatus ▸ nofun)
      simp only [Statement.account, Function.update_self]
      exact ⟨fun _ => hnone, fun _ => by rw [hnone]; rfl, fun _ => hnone, fun _ => rfl⟩
  | owner h => exact OwnerStatement.agrees h hok hexact
  | beginPublish h =>
      obtain ⟨task, htask, rfl⟩ := Option.map_eq_some_iff.mp h
      obtain ⟨htask, -⟩ := Entry.owned_eq_some.mp htask
      exact hok.congr (by simp [Entry.runs, htask]) rfl (by simp [htask])
  | finalizePublish h =>
      refine .of_stopped _ (runs_eq_false fun task htask => ?_) rfl
      obtain ⟨_, _, rfl⟩ := Option.map_eq_some_iff.mp htask
      exact nofun
  | finishControl h | failOrRetry h =>
      obtain ⟨task, htask, rfl⟩ := Option.map_eq_some_iff.mp h
      refine .of_stopped _ (runs_eq_false fun task htask => ?_) rfl
      cases htask
      dsimp only
      split <;> exact nofun
  | recoverUnpublished h =>
      obtain ⟨task, htask, rfl⟩ := Option.map_eq_some_iff.mp h
      refine .of_stopped _ (runs_eq_false fun task htask => ?_) ?_
      · cases htask
        exact release_stopped _ _
      · cases hruns : (s.db.entry t).runs with
        | false => exact hok.stopped hruns
        | true => exact hok.unreserved (hexact hruns)
  | failRecovery =>
      refine .of_stopped _ (runs_eq_false fun task htask => ?_) rfl
      obtain ⟨_, _, rfl⟩ := Option.map_eq_some_iff.mp htask
      exact nofun
  | recoverExpired =>
      change Account.Agrees (s.account t) _
      unfold Downloader.recoverExpired
      split
      · exact hok
      · next task htask =>
        split
        · split
          · refine .of_stopped _ (runs_eq_false fun task htask => ?_) rfl
            cases htask
            exact release_stopped _ _
          · exact hok
        · next hstatus =>
          refine .of_stopped _ (runs_eq_false fun other hother => ?_) rfl
          cases htask.symm.trans hother
          exact hstatus
  | @requeueOwned w =>
      change Account.Agrees (s.account t) _
      unfold Downloader.requeueOwned
      split
      · refine .of_stopped _ (runs_eq_false fun task htask => ?_) rfl
        cases htask
        exact release_stopped _ _
      · split
        · next hworker =>
          refine .of_stopped _ (Bool.eq_false_iff.mpr fun hruns => ?_) rfl
          have hsome := hok.worker hruns
          rw [hworker] at hsome
          cases hsome
        · exact hok
  | request h =>
      obtain ⟨task, htask, rfl⟩ := Option.map_eq_some_iff.mp h
      obtain ⟨htask, -⟩ := Option.filter_eq_some_iff.mp htask
      exact hok.congr (by simp [Entry.runs, htask]) rfl (by simp [htask])
  | transition h =>
      obtain ⟨task, htask, rfl⟩ := Option.map_eq_some_iff.mp h
      refine .of_stopped _ (runs_eq_false fun task htask => ?_) ?_
      · cases htask
        exact hexact.1
      · dsimp only
        split
        · rfl
        · exact hok.stopped hexact.2
  | delete h =>
      obtain ⟨_, _, rfl⟩ := Option.map_eq_some_iff.mp h
      exact .of_stopped _ rfl rfl
  | create h => exact .of_stopped _ rfl rfl

/-! ## Runs -/

theorem Account.Agrees.checkpoint {s : Space} {w t other total : Nat} {st : OwnerStatement}
    {e' : Entry} (h : st.exec s.now w other (s.db.entry t) = some e')
    (hok : Account.Agrees (s.account t) (s.db.entry t)) (hexact : (Statement.owner w t st).Exact s)
    (htotal : st.total = some total) :
    ∃ task, e'.task = some task ∧ task.status = .running ∧ task.totalBytes = some total ∧
      e'.reservation.getD 0 = total - task.receivedBytes := by
  have hafter := OwnerStatement.agrees h hok hexact
  cases st with
  | progress p =>
      obtain ⟨task, ht, rfl⟩ := Option.map_eq_some_iff.mp h
      have hrunning := (Entry.owned_eq_some.mp ht).2.1
      obtain ⟨hbehind, hleft⟩ := hexact total htotal
      refine ⟨_, rfl, hrunning, htotal, ?_⟩
      rw [hafter.amount (by simp [Entry.runs, hrunning])]
      simp only [Statement.account, hbehind, hleft, Nat.add_zero]
  | checkpointSegment c =>
      obtain ⟨task, ht, rfl⟩ := Option.map_eq_some_iff.mp h
      have hrunning := (Entry.owned_eq_some.mp ht).2.1
      cases htotal
      refine ⟨_, rfl, hrunning, rfl, ?_⟩
      rw [hafter.amount (by simp [Entry.runs, hrunning])]
      simp only [Statement.account, Function.update_self, Nat.add_zero]
      exact hexact.symm
  | extendLease | renewPhase | resetTransfer | setActualChecksum | replaceSegments
  | reserveSpace => cases htotal

/-- What the others have reserved is what they still have to write. -/
theorem otherReservations_eq {s : Space} {t : Nat}
    (hok : ∀ u, Account.Agrees (s.account u) (s.db.entry u))
    (hexact : ∀ u < s.db.nextId, u ≠ t → s.db.storagePool u = s.db.storagePool t →
      (s.account u).behind = 0) :
    s.db.otherReservations t = s.toCome t := by
  refine congrArg List.sum (List.map_congr_left fun u hu => ?_)
  by_cases hother : u ≠ t ∧ s.db.storagePool u = s.db.storagePool t
  · rw [if_pos hother]
    cases hruns : (s.db.entry u).runs with
    | false =>
        rw [if_neg (by simp), (hok u).stopped hruns]
        rfl
    | true =>
        rw [if_pos ⟨hother.1, hother.2, rfl⟩, (hok u).amount hruns,
          hexact u (List.mem_range.mp hu) hother.1 hother.2, Nat.add_zero]
  · rw [if_neg hother, if_neg fun h => hother ⟨h.1, h.2.1⟩]

def noTasks : Space := ⟨0, .empty id fun _ => 0, fun _ => ⟨false, 0, 0⟩⟩

def owns (taskId : Nat) (st : OwnerStatement) : SpaceAction := .statement (.owner 1 taskId st)

/-- A task that runs under worker 1. -/
def claims (taskId : Nat) : List SpaceAction :=
  [.statement (.createDownloadTask none), .statement (.claim 1 taskId)]

instance (s : Space) (a : SpaceAction) : Decidable (Exact s a) := by
  unfold Exact
  split
  · unfold Statement.Exact
    split <;> infer_instance
  · infer_instance

/-- Four of ten bytes have come in a segment and been recorded, and a second task runs. -/
def receivesSegment : List SpaceAction :=
  claims 0 ++ [owns 0 (.replaceSegments [⟨0, 9, 0⟩]), owns 0 (.reserveSpace 10 100 0),
    owns 0 (.progress ⟨0, some 10, 0, none, none, .downloading, .segmented, 1⟩), .write 0 4,
    owns 0 (.checkpointSegment ⟨0, 4, 10, 0⟩)] ++ claims 1

/-- Four of ten bytes of a single transfer have come and been recorded. -/
def receivesSingle : List SpaceAction :=
  claims 0 ++ [owns 0 (.reserveSpace 10 100 0), .write 0 4,
    owns 0 (.progress ⟨4, some 10, 0, none, none, .downloading, .single, 0⟩)]

/-- A worker stopped after `begin_publish`, and its lease has run out. -/
def leftUnpublished : List SpaceAction :=
  claims 0 ++ [owns 0 (.reserveSpace 10 100 0),
    .statement (.beginPublish ⟨0, .download 0, 1, 1, 1, 10, none⟩), .tick 30000,
    .statement (.recoverUnpublished 0)]

end Zos.Downloader
