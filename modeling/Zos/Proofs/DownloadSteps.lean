import Zos.Downloader.Machine

/-!
# What a step of the download machine can do

Two levels. `Change` says what a statement does to the entry of one task: it
names the transaction that ran on it, or says that nothing did. `Step` lists
the outcomes of `step` with the program point each one starts from and the
state it leaves. An invariant is a case analysis over these, and no proof
opens the program again.
-/

namespace Zos.Downloader

/-- A row of an updated table is an old one or the one written. -/
theorem update_eq_some {β : Type} {f : Nat → Option β} {a b : Nat} {v : Option β}
    {y : β} (h : Function.update f b v a = some y) : f a = some y ∨ a = b ∧ v = some y := by
  by_cases hab : a = b
  · subst hab
    exact .inr ⟨rfl, by rwa [Function.update_self] at h⟩
  · rw [Function.update_of_ne hab] at h
    exact .inl h

/-! ## Fences -/

theorem Entry.held_eq_some {e : Entry} {w : Nat} {task : Task} :
    e.held w = some task ↔ e.task = some task ∧ task.status = .running ∧
      task.workerId = some w := by
  simp [Entry.held, Option.filter_eq_some_iff]

theorem Entry.owned_eq_some {e : Entry} {w : Nat} {task : Task} :
    e.owned w = some task ↔ e.task = some task ∧ task.status = .running ∧
      task.workerId = some w ∧ task.controlRequested = none := by
  simp [Entry.owned, Option.filter_eq_some_iff]

theorem claimable_eq_some {now : Nat} {e : Entry} {task : Task} :
    claimable now e = some task ↔ e.task = some task ∧ task.status = .queued ∧
      task.nextRetryAt.all (· ≤ now) ∧ e.journal = none := by
  simp [claimable, Option.filter_eq_some_iff]

/-- The row that `finalize_publish` looks for. -/
theorem PublishJournal.of_any_matches {row? : Option PublishJournal}
    {j : PublishJournal} (h : row?.any j.matches = true) :
    ∃ row, row? = some row ∧ row.taskId = j.taskId ∧
      row.operationId = j.operationId ∧ row.workerId = j.workerId ∧
      row.identity = j.identity := by
  cases row? with
  | none => cases h
  | some row => exact ⟨row, rfl, by simpa [PublishJournal.matches] using h⟩

/-! ## Statements on one entry -/

/-- The task whose entry a statement changes when it changes anything. -/
def Statement.taskId : Statement → Option Nat
  | .claim _ t | .owner _ t _ | .finishControl _ t _ | .failOrRetry _ t _ _ _ _
  | .recoverUnpublished t | .failRecovery t _ _ | .requestDownloadTaskControl t _
  | .transitionDownloadTask t _ _ _ | .deleteDownloadTask t => some t
  | .beginPublish journal => some journal.taskId
  | _ => none

/-- What a statement that succeeded did to the entry of task `t`. -/
inductive Change (now : Nat) : Statement → Nat → Entry → Entry → Prop where
  | same {st : Statement} {t : Nat} {e : Entry} (ht : st.taskId ≠ some t) :
      Change now st t e e
  | claim {w t : Nat} {e e' : Entry} (h : claim now w e = some e') :
      Change now (.claim w t) t e e'
  | owner {w t other : Nat} {st : OwnerStatement} {e e' : Entry}
      (h : st.exec now w other e = some e') :
      Change now (.owner w t st) t e e'
  | beginPublish {journal : PublishJournal} {e e' : Entry}
      (h : beginPublish journal e = some e') :
      Change now (.beginPublish journal) journal.taskId e e'
  | finalizePublish {journal : PublishJournal} {mode : Mode} {e : Entry}
      (h : e.journal.any journal.matches = true) :
      Change now (.finalizePublish journal mode) journal.taskId e
        (completePublish now journal e)
  | finishControl {w t : Nat} {cancelled : Bool} {e e' : Entry}
      (h : finishControl now w cancelled e = some e') :
      Change now (.finishControl w t cancelled) t e e'
  | failOrRetry {w t n m : Nat} {error : DownloadError} {delay : Option Nat}
      {e e' : Entry} (h : failOrRetry now w n error m delay e = some e') :
      Change now (.failOrRetry w t n error m delay) t e e'
  | recoverUnpublished {t : Nat} {e e' : Entry}
      (h : recoverUnpublished now e = some e') :
      Change now (.recoverUnpublished t) t e e'
  | failRecovery {t : Nat} {code : ErrorCode} {message : String} {e : Entry} :
      Change now (.failRecovery t code message) t e
        (failRecovery now code message e)
  | recoverExpired {t : Nat} {e : Entry} :
      Change now .recoverExpired t e (recoverExpired now e)
  | requeueOwned {w t : Nat} {e : Entry} :
      Change now (.requeueOwned w) t e (requeueOwned now w e)
  | request {t : Nat} {c : Control} {e e' : Entry}
      (h : requestDownloadTaskControl c e = some e') :
      Change now (.requestDownloadTaskControl t c) t e e'
  | transition {t : Nat} {sources : List Status} {toStatus : Status} {reset : Bool}
      {e e' : Entry}
      (h : transitionDownloadTask now sources toStatus reset e = some e') :
      Change now (.transitionDownloadTask t sources toStatus reset) t e e'
  | delete {t : Nat} {e e' : Entry} (h : deleteDownloadTask e = some e') :
      Change now (.deleteDownloadTask t) t e e'
  | create {t : Nat} {sha256 : Option String} {e : Entry} (he : e = .empty) :
      Change now (.createDownloadTask sha256) t e (createDownloadTask now sha256)

/-- A transaction on one task changes the entry of that task only. -/
theorem Db.modify_change {now : Nat} {db db' : Db} {t : Nat}
    {f : Entry → Option Entry} {st : Statement} (h : db.modify t f = some db')
    (ht : st.taskId = some t)
    (hf : ∀ e, f (db.entry t) = some e → Change now st t (db.entry t) e)
    (u : Nat) : Change now st u (db.entry u) (db'.entry u) := by
  obtain ⟨e, he, rfl⟩ := Option.map_eq_some_iff.mp h
  by_cases hu : u = t
  · subst hu
    simpa [Db.setEntry] using hf e he
  · have hne : st.taskId ≠ some u := fun h => hu (Option.some.inj (h.symm.trans ht))
    simpa [Db.setEntry, hu] using Change.same hne

theorem Statement.exec_change {now : Nat} {db db' : Db} {st : Statement}
    (hfresh : db.entry db.nextId = .empty) (h : st.exec now db = some db')
    (t : Nat) :
    Change now st t (db.entry t) (db'.entry t) := by
  cases st with
  | claim w u =>
      simp only [Statement.exec] at h
      split at h
      · exact Db.modify_change h rfl (fun _ => .claim) t
      · cases h
  | owner w u st =>
      simp only [Statement.exec] at h
      exact Db.modify_change h rfl (fun _ => .owner) t
  | beginPublish journal => exact Db.modify_change h rfl (fun _ => .beginPublish) t
  | finalizePublish journal mode =>
      simp only [Statement.exec, Downloader.finalizePublish] at h
      split at h
      · next hm =>
          obtain rfl := Option.some.inj h
          by_cases ht : t = journal.taskId
          · subst ht
            simpa [Db.setEntry] using Change.finalizePublish hm
          · have hne : (Statement.finalizePublish journal mode).taskId ≠ some t :=
              fun h => nomatch h
            simpa [Db.setEntry, ht] using Change.same hne
      · split at h
        · obtain rfl := Option.some.inj h
          exact .same (fun h => nomatch h)
        · cases h
  | finishControl w u cancelled =>
      exact Db.modify_change h rfl (fun _ => .finishControl) t
  | failOrRetry w u n error m delay =>
      exact Db.modify_change h rfl (fun _ => .failOrRetry) t
  | recoverUnpublished u =>
      exact Db.modify_change h rfl (fun _ => .recoverUnpublished) t
  | failRecovery u code message =>
      simp only [Statement.exec] at h
      refine Db.modify_change h rfl (fun e he => ?_) t
      obtain rfl := Option.some.inj he
      exact .failRecovery
  | recoverExpired =>
      obtain rfl := Option.some.inj h
      exact .recoverExpired
  | requeueOwned w =>
      obtain rfl := Option.some.inj h
      exact .requeueOwned
  | requestDownloadTaskControl u c =>
      exact Db.modify_change h rfl (fun _ => .request) t
  | transitionDownloadTask u sources toStatus reset =>
      exact Db.modify_change h rfl (fun _ => .transition) t
  | deleteDownloadTask u => exact Db.modify_change h rfl (fun _ => .delete) t
  | createDownloadTask sha256 =>
      simp only [Statement.exec] at h
      split at h
      · obtain rfl := Option.some.inj h
        by_cases ht : t = db.nextId
        · subst ht
          simpa [Db.setEntry] using Change.create hfresh
        · have hne : (Statement.createDownloadTask sha256).taskId ≠ some t :=
            fun h => nomatch h
          simpa [Db.setEntry, ht] using Change.same hne
      · cases h

/-- Apart from the entries, a statement changes the operations table when it
completes a publication, and the id counter when it creates a task. -/
theorem Statement.exec_cases {now : Nat} {db db' : Db} {st : Statement}
    (h : st.exec now db = some db') :
    (∃ entry, db' = { db with entry := entry } ∧
        (∀ journal mode, st = .finalizePublish journal mode → entry = db.entry) ∧
        ∀ sha256, st ≠ .createDownloadTask sha256) ∨
      (∃ journal mode, st = .finalizePublish journal mode ∧
        (db.entry journal.taskId).journal.any journal.matches = true ∧
        db' = { db with
          entry := Function.update db.entry journal.taskId
            (completePublish now journal (db.entry journal.taskId))
          fileOperations := insertOrIgnore
            ⟨journal.operationId, db.targetPath journal.taskId, journal.sizeBytes,
              journal.sha256, mode⟩ db.fileOperations }) ∨
      (∃ sha256, st = .createDownloadTask sha256 ∧
        db' = { db with
          nextId := db.nextId + 1
          entry := Function.update db.entry db.nextId
            (Downloader.createDownloadTask now sha256) }) := by
  have hmodify : ∀ {t f}, db.modify t f = some db' →
      ∃ entry, db' = { db with entry := entry } := by
    intro t f hf
    obtain ⟨e, -, rfl⟩ := Option.map_eq_some_iff.mp hf
    exact ⟨_, rfl⟩
  cases st with
  | claim w u =>
      simp only [Statement.exec] at h
      split at h
      · obtain ⟨entry, hdb⟩ := hmodify h
        exact .inl ⟨entry, hdb, fun _ _ h => (nomatch h), fun _ h => nomatch h⟩
      · cases h
  | finalizePublish journal mode =>
      simp only [Statement.exec, Downloader.finalizePublish] at h
      split at h
      · next hm =>
          obtain rfl := Option.some.inj h
          exact .inr (.inl ⟨journal, mode, rfl, hm, rfl⟩)
      · split at h
        · exact .inl ⟨db.entry, (Option.some.inj h).symm, fun _ _ _ => rfl,
            fun _ h => nomatch h⟩
        · cases h
  | recoverExpired | requeueOwned w =>
      exact .inl ⟨_, (Option.some.inj h).symm, fun _ _ h => (nomatch h),
        fun _ h => nomatch h⟩
  | createDownloadTask sha256 =>
      simp only [Statement.exec] at h
      split at h
      · exact .inr (.inr ⟨sha256, rfl, (Option.some.inj h).symm⟩)
      · cases h
  | owner | beginPublish | finishControl | failOrRetry | recoverUnpublished
  | failRecovery | requestDownloadTaskControl | transitionDownloadTask
  | deleteDownloadTask =>
      simp only [Statement.exec] at h
      obtain ⟨entry, hdb⟩ := hmodify h
      exact .inl ⟨entry, hdb, fun _ _ h => (nomatch h), fun _ h => nomatch h⟩

/-- No statement rewrites the columns that came with the row. -/
theorem Statement.exec_targetPath {now : Nat} {db db' : Db} {st : Statement}
    (h : st.exec now db = some db') : db'.targetPath = db.targetPath := by
  rcases Statement.exec_cases h with ⟨_, rfl, -⟩ | ⟨_, _, -, -, rfl⟩ | ⟨_, -, rfl⟩ <;>
    rfl

/-! ## Steps of the machine -/

/-- The stages in which an attempt holds the lock of its partial file. -/
def Stage.locks : Stage → Bool
  | .transferring | .prepared _ | .publishing _ => true
  | _ => false

/-- The journal an attempt has made up. -/
def Stage.journal : Stage → Option PublishJournal
  | .prepared journal | .publishing journal | .renamed journal
  | .dropped journal => some journal
  | _ => none

inductive Step (s : State) : Action → State → Prop where
  | claim {a w t : Nat} {task : Task} {db : Db} (ha : s.attempt a = none)
      (h : (Statement.claim w t).exec s.now s.db = some db)
      (ht : (db.entry t).task = some task) :
      Step s (.claim a w t)
        ({ s with db := db, accepted := Function.update s.accepted t []
          }.setAttempt a (some ⟨w, t, task, .started⟩))
  | move {a : Nat} {x : Attempt} {act : AttemptAction} {stage : Stage}
      (hx : s.attempt a = some x) (hl : x.stage.locks = false)
      (hl' : stage.locks = false) (hj : stage.journal = none) :
      Step s (.attempt a act) (s.toStage a x stage)
  | leave {a : Nat} {x : Attempt} {act : AttemptAction} {stage : Stage}
      (hx : s.attempt a = some x) (hl : stage.locks = false)
      (hj : stage.journal = none) :
      Step s (.attempt a act) (s.leave a x stage)
  | drop {a : Nat} {x : Attempt} {journal : PublishJournal}
      (hx : s.attempt a = some x) (hs : x.stage = .prepared journal) :
      Step s (.attempt a .drop) (s.leave a x (.dropped journal))
  | lockNew {a device inode : Nat} {x : Attempt} (hx : s.attempt a = some x)
      (hs : x.stage = .probing) (hp : s.partialFile x.taskId = none) :
      Step s (.attempt a (.lockPartial device inode))
        ((s.setPartial x.taskId
          (some ⟨⟨device, inode, 0⟩, some (.attempt a)⟩)).toStage a x .transferring)
  | lockFree {a device inode : Nat} {x : Attempt} {p : PartialFile}
      (hx : s.attempt a = some x) (hs : x.stage = .probing)
      (hp : s.partialFile x.taskId = some p) (hf : p.lock = none) :
      Step s (.attempt a (.lockPartial device inode))
        ((s.setPartial x.taskId
          (some { p with lock := some (.attempt a) })).toStage a x .transferring)
  | openNew {a device inode : Nat} {truncate : Bool} {x : Attempt}
      (hx : s.attempt a = some x) (hs : x.stage = .transferring)
      (hp : s.partialFile x.taskId = none) :
      Step s (.attempt a (.openPartial truncate device inode))
        (s.setPartial x.taskId (some ⟨⟨device, inode, 0⟩, none⟩))
  | write {a : Nat} {x : Attempt} {act : AttemptAction} {p : PartialFile}
      {identity : FileIdentity} (hx : s.attempt a = some x)
      (hs : x.stage = .transferring) (hp : s.partialFile x.taskId = some p) :
      Step s (.attempt a act)
        (s.setPartial x.taskId (some { p with identity := identity }))
  | owner {a : Nat} {x : Attempt} {st : OwnerStatement} {db : Db}
      (hx : s.attempt a = some x)
      (h : (Statement.owner x.workerId x.taskId st).exec s.now s.db = some db) :
      Step s (.attempt a (.owner st)) { s with db := db }
  | prepare {a : Nat} {x : Attempt} {sha256 : Option String} {p : PartialFile}
      (hx : s.attempt a = some x) (hs : x.stage = .transferring)
      (hp : s.partialFile x.taskId = some p) :
      Step s (.attempt a (.prepare sha256))
        (s.toStage a x (.prepared (x.journal p.identity sha256)))
  | beginPublish {a : Nat} {x : Attempt} {journal : PublishJournal} {db : Db}
      (hx : s.attempt a = some x) (hs : x.stage = .prepared journal)
      (h : (Statement.beginPublish journal).exec s.now s.db = some db) :
      Step s (.attempt a .beginPublish)
        ({ s with db := db }.toStage a x (.publishing journal))
  | beginDropped {a : Nat} {x : Attempt} {journal : PublishJournal} {db : Db}
      (hx : s.attempt a = some x) (hs : x.stage = .dropped journal)
      (h : (Statement.beginPublish journal).exec s.now s.db = some db) :
      Step s (.attempt a .beginPublish)
        ({ s with db := db }.toStage a x (.failed leaseNotRenewed))
  | publish {a : Nat} {x : Attempt} {journal : PublishJournal} {p : PartialFile}
      (hx : s.attempt a = some x) (hs : x.stage = .publishing journal)
      (ht : s.targetFile (s.db.targetPath x.taskId) = none)
      (hp : s.partialFile x.taskId = some p) :
      Step s (.attempt a .publish)
        (((s.setTarget (s.db.targetPath x.taskId)
          (some ⟨p.identity, some journal⟩)).setPartial x.taskId none).toStage a x
            (.renamed journal))
  | finalize {a : Nat} {x : Attempt} {journal : PublishJournal} {mode : Mode}
      {db : Db} (hx : s.attempt a = some x) (hs : x.stage = .renamed journal)
      (h : (Statement.finalizePublish journal mode).exec s.now s.db = some db) :
      Step s (.attempt a (.finalize mode))
        ({ s with db := db }.toStage a x .finalized)
  | removePartial {a : Nat} {x : Attempt} (hx : s.attempt a = some x)
      (hs : x.stage = .removing) :
      Step s (.attempt a (.removePartial true))
        ((s.setPartial x.taskId none).toStage a x (.finishing true))
  | finishControl {a : Nat} {x : Attempt} {cancelled : Bool} {db : Db}
      (hx : s.attempt a = some x) (hs : x.stage = .finishing cancelled)
      (h : (Statement.finishControl x.workerId x.taskId cancelled).exec s.now s.db =
        some db) :
      Step s (.attempt a .finishControl) ({ s with db := db }.setAttempt a none)
  | failOrRetry {a m n : Nat} {x : Attempt} {error : DownloadError}
      {delay : Option Nat} {db : Db} (hx : s.attempt a = some x)
      (hs : x.stage = .failing error)
      (h : (Statement.failOrRetry x.workerId x.taskId x.task.retryCount error m
        delay).exec s.now s.db = some db) :
      Step s (.attempt a (.failOrRetry m n)) ({ s with db := db }.setAttempt a none)
  | ended {a : Nat} {x : Attempt} {act : AttemptAction} (hx : s.attempt a = some x)
      (hl : x.stage.locks = false) :
      Step s (.attempt a act) (s.setAttempt a none)
  | stop {a : Nat} {x : Attempt} (hx : s.attempt a = some x) :
      Step s (.attempt a .stop)
        ((s.unlock x.taskId (.attempt a)).setAttempt a none)
  | passMove {w : Nat} {act : PassAction} {p : Pass} (hl : (s.pass w).locks = none)
      (hl' : p.locks = none) :
      Step s (.pass w act) (s.setPass w p)
  | passLock {w : Nat} {journal : PublishJournal} {task : Task}
      {rest : List PublishJournal} {p : PartialFile}
      (hs : s.pass w = .unpublished journal task rest)
      (hp : s.partialFile journal.taskId = some p) (hf : p.lock = none) :
      Step s (.pass w .lock)
        ((s.setPartial journal.taskId
          (some { p with lock := some (.pass w) })).setPass w
            (.locked journal task rest))
  | passConfirm {w : Nat} {journal : PublishJournal} {task : Task}
      {rest : List PublishJournal} (hs : s.pass w = .locked journal task rest)
      (hp : s.partialIdentity journal.taskId = some journal.identity) :
      Step s (.pass w .recheck) (s.setPass w (.confirmed journal task rest))
  | passRelease {w : Nat} {act : PassAction} {p : Pass} (hl : p.locks = none) :
      Step s (.pass w act) (s.release w p)
  | passFinalize {w : Nat} {journal : PublishJournal} {task : Task}
      {rest : List PublishJournal} {mode : Mode} {db : Db}
      (hs : s.pass w = .looked journal task (some journal.identity) rest)
      (h : (Statement.finalizePublish journal mode).exec s.now s.db = some db) :
      Step s (.pass w .finalize) ({ s with db := db }.setPass w (.listing rest))
  | passRecover {w : Nat} {journal : PublishJournal} {task : Task}
      {rest : List PublishJournal} {db : Db}
      (hs : s.pass w = .confirmed journal task rest)
      (h : (Statement.recoverUnpublished journal.taskId).exec s.now s.db = some db) :
      Step s (.pass w .recoverUnpublished)
        ({ s with db := db }.release w (.listing rest))
  | passRecoverCancelled {w : Nat} {journal : PublishJournal} {task : Task}
      {rest : List PublishJournal} {db : Db}
      (hs : s.pass w = .confirmed journal task rest)
      (h : (Statement.recoverUnpublished journal.taskId).exec s.now s.db = some db) :
      Step s (.pass w .recoverUnpublished)
        ({ s with db := db }.setPass w (.removing journal rest))
  | passRemove {w : Nat} {journal : PublishJournal} {rest : List PublishJournal}
      (hs : s.pass w = .removing journal rest) :
      Step s (.pass w (.removePartial true))
        ((s.setPartial journal.taskId none).setPass w (.listing rest))
  | passFail {w : Nat} {journal : PublishJournal} {rest : List PublishJournal}
      {code : ErrorCode} {message : String} {db : Db}
      (hs : s.pass w = .vanished journal rest ∨
        ∃ target, s.pass w = .failing journal target rest)
      (h : (Statement.failRecovery journal.taskId code message).exec s.now s.db =
        some db) :
      Step s (.pass w .failRecovery) ({ s with db := db }.setPass w (.listing rest))
  | recoverExpired {w : Nat} {db : Db}
      (h : Statement.recoverExpired.exec s.now s.db = some db) :
      Step s (.recoverExpired w) { s with db := db }
  | requeueOwned {w : Nat} {db : Db}
      (h : (Statement.requeueOwned w).exec s.now s.db = some db) :
      Step s (.requeueOwned w) { s with db := db }
  | requestMove {r : Nat} {act : RequestAction} {q : Request} :
      Step s (.request r act) (s.setRequest r q)
  | requestWrite {r : Nat} {st : Statement} {db : Db}
      (hs : (s.request r).call = some st) (h : st.exec s.now s.db = some db) :
      Step s (.request r .write)
        (({ s with db := db }.accept (s.request r)).setRequest r
          ((s.request r).next true))
  | requestUnlink {r t : Nat} {route : Route} {q : Request}
      (hs : s.request r = .unlinking route t) :
      Step s (.request r (.unlink true)) ((s.setPartial t none).setRequest r q)
  | create {sha256 : Option String} {db : Db}
      (h : (Statement.createDownloadTask sha256).exec s.now s.db = some db) :
      Step s (.create sha256) { s with db := db }
  | tick {n : Nat} : Step s (.tick n) { s with now := s.now + n }
  | createTarget {path : Nat} {identity : FileIdentity}
      (ht : s.targetFile path = none) :
      Step s (.createTarget path identity)
        (s.setTarget path (some ⟨identity, none⟩))
  | removeTarget {path : Nat} :
      Step s (.removeTarget path) (s.setTarget path none)

theorem State.exec_eq_some {s s' : State} {st : Statement} (h : s.exec st = some s') :
    ∃ db, st.exec s.now s.db = some db ∧ s' = { s with db := db } := by
  obtain ⟨db, hdb, rfl⟩ := Option.map_eq_some_iff.mp h
  exact ⟨db, hdb, rfl⟩

theorem afterControl_locks (c : Control) :
    (afterControl c).locks = false ∧ (afterControl c).journal = none := by
  cases c <;> exact ⟨rfl, rfl⟩

theorem stepAttempt_sound {s s' : State} {a : Nat} {x : Attempt}
    {act : AttemptAction} (hx : s.attempt a = some x)
    (h : stepAttempt s a x act = some s') : Step s (.attempt a act) s' := by
  cases act with
  | checkTarget =>
      simp only [stepAttempt] at h
      split at h
      · next hs =>
          split at h <;> obtain rfl := Option.some.inj h
          · exact .move hx (by rw [hs]; rfl) rfl rfl
          · exact .move hx (by rw [hs]; rfl) rfl rfl
      · cases h
  | lockPartial device inode =>
      simp only [stepAttempt] at h
      split at h
      · next hs hp =>
          obtain rfl := Option.some.inj h
          exact .lockNew hx hs hp
      · next p hs hp =>
          split at h <;> obtain rfl := Option.some.inj h
          · next hf => exact .lockFree hx hs hp hf
          · exact .move hx (by rw [hs]; rfl) rfl rfl
      · cases h
  | openPartial truncate device inode =>
      simp only [stepAttempt] at h
      split at h
      · next hs hp =>
          obtain rfl := Option.some.inj h
          exact .openNew hx hs hp
      · next p hs hp =>
          obtain rfl := Option.some.inj h
          cases truncate
          · exact .write hx hs hp
          · exact .write hx hs hp
      · cases h
  | resize size =>
      simp only [stepAttempt] at h
      split at h
      · next p hs hp =>
          obtain rfl := Option.some.inj h
          exact .write hx hs hp
      · cases h
  | owner st =>
      simp only [stepAttempt] at h
      split at h
      · split at h
        · next s₁ hdb =>
            obtain ⟨db, hex, rfl⟩ := State.exec_eq_some hdb
            obtain rfl := Option.some.inj h
            exact .owner hx hex
        · obtain rfl := Option.some.inj h
          exact .leave hx rfl rfl
      · cases h
  | readControl ok =>
      simp only [stepAttempt] at h
      split at h
      · next c _ _ =>
          obtain rfl := Option.some.inj h
          exact .leave hx (afterControl_locks c).1 (afterControl_locks c).2
      · next c _ _ =>
          obtain rfl := Option.some.inj h
          exact .leave hx (afterControl_locks c).1 (afterControl_locks c).2
      · next error c hs _ =>
          obtain rfl := Option.some.inj h
          cases ok
          · exact .move hx (by rw [hs]; rfl) rfl rfl
          · exact .move hx (by rw [hs]; rfl) (afterControl_locks c).1
              (afterControl_locks c).2
      · next error hs _ =>
          obtain rfl := Option.some.inj h
          exact .move hx (by rw [hs]; rfl) rfl rfl
      · cases h
  | prepare sha256 =>
      simp only [stepAttempt] at h
      split at h
      · next p hs hp =>
          obtain rfl := Option.some.inj h
          exact .prepare hx hs hp
      · cases h
  | beginPublish =>
      simp only [stepAttempt] at h
      split at h
      · next journal hs =>
          split at h
          · next s₁ hdb =>
              obtain ⟨db, hex, rfl⟩ := State.exec_eq_some hdb
              obtain rfl := Option.some.inj h
              exact .beginPublish hx hs hex
          · obtain rfl := Option.some.inj h
            exact .leave hx rfl rfl
      · next journal hs =>
          obtain rfl := Option.some.inj h
          cases hdb : s.exec (.beginPublish journal) with
          | none => exact .move hx (by rw [hs]; rfl) rfl rfl
          | some s₁ =>
              obtain ⟨db, hex, rfl⟩ := State.exec_eq_some hdb
              exact .beginDropped hx hs hex
      · cases h
  | drop =>
      simp only [stepAttempt] at h
      split at h
      · next journal hs =>
          obtain rfl := Option.some.inj h
          exact .drop hx hs
      · cases h
  | publish =>
      simp only [stepAttempt] at h
      split at h
      · next journal hs =>
          split at h
          · obtain rfl := Option.some.inj h
            exact .leave hx rfl rfl
          · next ht =>
              split at h
              · obtain rfl := Option.some.inj h
                exact .leave hx rfl rfl
              · next p hp =>
                  obtain rfl := Option.some.inj h
                  exact .publish hx hs (by simpa [State.targetIdentity] using ht) hp
      · cases h
  | finalize mode =>
      simp only [stepAttempt] at h
      split at h
      · next journal hs =>
          split at h
          · next s₁ hdb =>
              obtain ⟨db, hex, rfl⟩ := State.exec_eq_some hdb
              obtain rfl := Option.some.inj h
              exact .finalize hx hs hex
          · obtain rfl := Option.some.inj h
            exact .leave hx rfl rfl
      · cases h
  | fail error =>
      simp only [stepAttempt] at h
      split at h
      · obtain rfl := Option.some.inj h
        exact .leave hx rfl rfl
      · cases h
  | removePartial ok =>
      simp only [stepAttempt] at h
      split at h
      · next hs =>
          obtain rfl := Option.some.inj h
          cases ok
          · exact .move hx (by rw [hs]; rfl) rfl rfl
          · exact .removePartial hx hs
      · cases h
  | finishControl =>
      simp only [stepAttempt] at h
      split at h
      · next cancelled hs =>
          obtain rfl := Option.some.inj h
          cases hdb : s.exec (.finishControl x.workerId x.taskId cancelled) with
          | none => exact .ended hx (by rw [hs]; rfl)
          | some s₁ =>
              obtain ⟨db, hex, rfl⟩ := State.exec_eq_some hdb
              exact .finishControl hx hs hex
      · cases h
  | failOrRetry m n =>
      simp only [stepAttempt] at h
      split at h
      · next error hs =>
          obtain rfl := Option.some.inj h
          generalize (if error.retryable = true ∧ x.task.retryCount < m then some n
            else none) = delay
          cases hdb : s.exec (.failOrRetry x.workerId x.taskId x.task.retryCount error
              m delay) with
          | none => exact .ended hx (by rw [hs]; rfl)
          | some s₁ =>
              obtain ⟨db, hex, rfl⟩ := State.exec_eq_some hdb
              exact .failOrRetry hx hs hex
      · cases h
  | stop =>
      obtain rfl := Option.some.inj h
      exact .stop hx

theorem stepPass_sound {s s' : State} {w : Nat} {act : PassAction}
    (h : stepPass s w act = some s') : Step s (.pass w act) s' := by
  cases act with
  | start =>
      simp only [stepPass] at h
      split at h
      · next hs =>
          obtain rfl := Option.some.inj h
          exact .passMove (by rw [hs]; rfl) rfl
      · cases h
  | next =>
      simp only [stepPass] at h
      split at h
      · next hs =>
          obtain rfl := Option.some.inj h
          exact .passMove (by rw [hs]; rfl) rfl
      · next journal rest hs =>
          split at h <;> obtain rfl := Option.some.inj h
          · exact .passMove (by rw [hs]; rfl) rfl
          · exact .passMove (by rw [hs]; rfl) rfl
      · cases h
  | skip =>
      simp only [stepPass] at h
      split at h
      · next hs =>
          obtain rfl := Option.some.inj h
          exact .passMove (by rw [hs]; rfl) rfl
      · cases h
  | readTarget =>
      simp only [stepPass] at h
      split at h
      · next hs =>
          obtain rfl := Option.some.inj h
          exact .passMove (by rw [hs]; rfl) rfl
      · cases h
  | finalize =>
      simp only [stepPass] at h
      split at h
      · next journal task target rest hs =>
          split at h
          · next htarget =>
              subst htarget
              split at h
              · next s₁ hdb =>
                  obtain ⟨db, hex, rfl⟩ := State.exec_eq_some hdb
                  obtain rfl := Option.some.inj h
                  exact .passFinalize hs hex
              · obtain rfl := Option.some.inj h
                exact .passMove (by rw [hs]; rfl) rfl
          · cases h
      · cases h
  | checkLease =>
      simp only [stepPass] at h
      split at h
      · next hs =>
          split at h
          · cases h
          · split at h
            · obtain rfl := Option.some.inj h
              exact .passMove (by rw [hs]; rfl) rfl
            · split at h <;> obtain rfl := Option.some.inj h
              · exact .passMove (by rw [hs]; rfl) rfl
              · exact .passMove (by rw [hs]; rfl) rfl
      · cases h
  | readPartial =>
      simp only [stepPass] at h
      split at h
      · next hs =>
          split at h <;> obtain rfl := Option.some.inj h
          · exact .passMove (by rw [hs]; rfl) rfl
          · exact .passMove (by rw [hs]; rfl) rfl
      · cases h
  | lock =>
      simp only [stepPass] at h
      split at h
      · next journal task rest hs =>
          split at h
          · obtain rfl := Option.some.inj h
            exact .passMove (by rw [hs]; rfl) rfl
          · next p hp =>
              split at h <;> obtain rfl := Option.some.inj h
              · next hf => exact .passLock hs hp hf
              · exact .passMove (by rw [hs]; rfl) rfl
      · cases h
  | recheck =>
      simp only [stepPass] at h
      split at h
      · next journal task rest hs =>
          split at h <;> obtain rfl := Option.some.inj h
          · next hp => exact .passConfirm hs hp
          · exact .passRelease rfl
      · cases h
  | recoverUnpublished =>
      simp only [stepPass] at h
      split at h
      · next journal task rest hs =>
          split at h
          · next s₁ hdb =>
              obtain ⟨db, hex, rfl⟩ := State.exec_eq_some hdb
              split at h <;> obtain rfl := Option.some.inj h
              · exact .passRecoverCancelled hs hex
              · exact .passRecover hs hex
          · obtain rfl := Option.some.inj h
            exact .passRelease rfl
      · cases h
  | removePartial ok =>
      simp only [stepPass] at h
      split at h
      · next journal rest hs =>
          cases ok
          · obtain rfl := Option.some.inj h
            exact .passRelease rfl
          · obtain rfl := Option.some.inj h
            exact .passRemove hs
      · cases h
  | failRecovery =>
      simp only [stepPass] at h
      split at h
      · next journal rest hs =>
          obtain rfl := Option.some.inj h
          exact .passFail (.inl hs) rfl
      · next journal target rest hs =>
          obtain rfl := Option.some.inj h
          exact .passFail (.inr ⟨target, hs⟩) rfl
      · cases h
  | stop =>
      obtain rfl := Option.some.inj h
      exact .passRelease rfl

theorem stepRequest_sound {s s' : State} {r : Nat} {act : RequestAction}
    (h : stepRequest s r act = some s') : Step s (.request r act) s' := by
  cases act with
  | receive route taskId =>
      simp only [stepRequest] at h
      split at h
      · split at h <;> obtain rfl := Option.some.inj h
        · exact .requestMove
        · exact .requestMove
      · cases h
  | look =>
      simp only [stepRequest] at h
      split at h
      · split at h
        · obtain rfl := Option.some.inj h
          exact .requestMove
        · cases h
      · split at h
        · obtain rfl := Option.some.inj h
          exact .requestMove
        · cases h
      · split at h <;> obtain rfl := Option.some.inj h
        · exact .requestMove
        · exact .requestMove
      · cases h
  | write =>
      simp only [stepRequest] at h
      split at h
      · next st hs =>
          split at h
          · next s₁ hdb =>
              obtain ⟨db, hex, rfl⟩ := State.exec_eq_some hdb
              obtain rfl := Option.some.inj h
              exact .requestWrite hs hex
          · obtain rfl := Option.some.inj h
            exact .requestMove
      · cases h
  | unlink ok =>
      simp only [stepRequest] at h
      split at h
      · next route taskId hs =>
          cases ok
          · obtain rfl := Option.some.inj h
            exact .requestMove
          · obtain rfl := Option.some.inj h
            exact .requestUnlink hs
      · cases h

theorem step_sound {s s' : State} {act : Action} (h : step s act = some s') :
    Step s act s' := by
  cases act with
  | claim a w t =>
      simp only [step] at h
      split at h
      · next hc =>
          obtain ⟨s₁, hdb, h⟩ := Option.bind_eq_some_iff.mp h
          obtain ⟨db, hex, rfl⟩ := State.exec_eq_some hdb
          obtain ⟨task, ht, rfl⟩ := Option.map_eq_some_iff.mp h
          exact .claim hc.1 hex ht
      · cases h
  | attempt a act =>
      simp only [step] at h
      split at h
      · next x hx => exact stepAttempt_sound hx h
      · cases h
  | pass w act => exact stepPass_sound h
  | recoverExpired w =>
      simp only [step] at h
      split at h
      · obtain ⟨db, hex, rfl⟩ := State.exec_eq_some h
        exact .recoverExpired hex
      · cases h
  | requeueOwned w =>
      simp only [step] at h
      split at h
      · obtain ⟨db, hex, rfl⟩ := State.exec_eq_some h
        exact .requeueOwned hex
      · cases h
  | request r act => exact stepRequest_sound h
  | create sha256 =>
      obtain ⟨db, hex, rfl⟩ := State.exec_eq_some h
      exact .create hex
  | tick n =>
      obtain rfl := Option.some.inj h
      exact .tick
  | createTarget path identity =>
      simp only [step] at h
      split at h
      · next ht =>
          obtain rfl := Option.some.inj h
          exact .createTarget ht
      · cases h
  | removeTarget path =>
      obtain rfl := Option.some.inj h
      exact .removeTarget

/-! ## The statement behind a step -/

/-- `st` is the statement that action `act` runs in state `s`: who runs it, and
where that thread stands. -/
def Runs (s : State) (act : Action) : Statement → Prop
  | .claim w t => ∃ a, act = .claim a w t
  | .owner w t st => ∃ a x, act = .attempt a (.owner st) ∧ s.attempt a = some x ∧
      x.workerId = w ∧ x.taskId = t
  | .beginPublish journal => ∃ a x, act = .attempt a .beginPublish ∧
      s.attempt a = some x ∧
      (x.stage = .prepared journal ∨ x.stage = .dropped journal)
  | .finalizePublish journal mode =>
      (∃ a x, act = .attempt a (.finalize mode) ∧ s.attempt a = some x ∧
        x.stage = .renamed journal) ∨
      ∃ w task rest, act = .pass w .finalize ∧
        s.pass w = .looked journal task (some journal.identity) rest
  | .finishControl w t cancelled => ∃ a x, act = .attempt a .finishControl ∧
      s.attempt a = some x ∧ x.workerId = w ∧ x.taskId = t ∧
      x.stage = .finishing cancelled
  | .failOrRetry w t _ error m _ => ∃ a x n, act = .attempt a (.failOrRetry m n) ∧
      s.attempt a = some x ∧ x.workerId = w ∧ x.taskId = t ∧
      x.stage = .failing error
  | .recoverUnpublished t => ∃ w journal task rest,
      act = .pass w .recoverUnpublished ∧ journal.taskId = t ∧
      s.pass w = .confirmed journal task rest
  | .failRecovery t _ _ => ∃ w journal rest, act = .pass w .failRecovery ∧
      journal.taskId = t ∧ (s.pass w = .vanished journal rest ∨
        ∃ target, s.pass w = .failing journal target rest)
  | .recoverExpired => ∃ w, act = .recoverExpired w
  | .requeueOwned w => act = .requeueOwned w
  | .requestDownloadTaskControl t c => ∃ r, act = .request r .write ∧
      (s.request r).call = some (.requestDownloadTaskControl t c)
  | .transitionDownloadTask t sources toStatus reset => ∃ r, act = .request r .write ∧
      (s.request r).call = some (.transitionDownloadTask t sources toStatus reset)
  | .deleteDownloadTask t => ∃ r, act = .request r .write ∧
      (s.request r).call = some (.deleteDownloadTask t)
  | .createDownloadTask sha256 => act = .create sha256

/-- The writes of a request. -/
inductive Request.Calls : Request → Statement → Prop
  | pauseRunning {t : Nat} {task : Task} (h : task.status = .running) :
      Calls (.loaded .pause t task) (.requestDownloadTaskControl t .pause)
  | pause {t : Nat} {task : Task} (h : task.status ≠ .running) :
      Calls (.loaded .pause t task) (.transitionDownloadTask t [.queued] .paused false)
  | resume {t : Nat} {task : Task} :
      Calls (.loaded .resume t task) (.transitionDownloadTask t [.paused] .queued false)
  | cancelRunning {t : Nat} {task : Task} :
      Calls (.loaded .cancel t task) (.requestDownloadTaskControl t .cancel)
  | cancel {t : Nat} {task : Task} : Calls (.loaded .cancel t task)
      (.transitionDownloadTask t [.queued, .running, .paused] .cancelled false)
  | retry {t : Nat} {task : Task} : Calls (.loaded .retry t task)
      (.transitionDownloadTask t [.failed, .cancelled] .queued false)
  | delete {t : Nat} {task : Task} : Calls (.loaded .delete t task)
      (.transitionDownloadTask t [.queued, .paused, .failed] .cancelled false)
  | retryUnlinked {t : Nat} : Calls (.unlinked .retry t)
      (.transitionDownloadTask t [.failed, .cancelled] .queued true)
  | deleteUnlinked {t : Nat} : Calls (.unlinked .delete t) (.deleteDownloadTask t)

theorem Request.calls {q : Request} {st : Statement} (h : q.call = some st) : q.Calls st := by
  unfold Request.call at h
  split at h
  · split at h <;> obtain rfl := Option.some.inj h
    · next hrun => exact .pauseRunning hrun
    · next hrun => exact .pause hrun
  · obtain rfl := Option.some.inj h
    exact .resume
  · split at h <;> obtain rfl := Option.some.inj h
    · exact .cancelRunning
    · exact .cancel
  · split at h
    · cases h
    · obtain rfl := Option.some.inj h
      exact .retry
  · split at h
    · cases h
    · obtain rfl := Option.some.inj h
      exact .delete
  · obtain rfl := Option.some.inj h
    exact .retryUnlinked
  · obtain rfl := Option.some.inj h
    exact .deleteUnlinked
  · cases h

/-- The statuses a request's write can set. -/
theorem Request.call_cases {q : Request} {st : Statement} (h : q.call = some st) :
    (∃ t c, st = .requestDownloadTaskControl t c) ∨
      (∃ t sources toStatus reset, st = .transitionDownloadTask t sources toStatus reset ∧
        toStatus ∈ [Status.queued, .paused, .cancelled] ∧ .completed ∉ sources) ∨
      ∃ t, st = .deleteDownloadTask t := by
  cases Request.calls h with
  | pauseRunning | cancelRunning => exact .inl ⟨_, _, rfl⟩
  | pause | resume | cancel | retry | delete | retryUnlinked =>
      exact .inr (.inl ⟨_, _, _, _, rfl, by decide, by decide⟩)
  | deleteUnlinked => exact .inr (.inr ⟨_, rfl⟩)

/-! ## The parts of a state -/

section Parts

variable (s : State)

@[simp]
theorem State.accept_db (q : Request) : (s.accept q).db = s.db := by
  unfold State.accept
  split <;> rfl

@[simp]
theorem State.accept_partialFile (q : Request) :
    (s.accept q).partialFile = s.partialFile := by
  unfold State.accept
  split <;> rfl

@[simp]
theorem State.accept_targetFile (q : Request) :
    (s.accept q).targetFile = s.targetFile := by
  unfold State.accept
  split <;> rfl

@[simp]
theorem State.accept_attempt (q : Request) : (s.accept q).attempt = s.attempt := by
  unfold State.accept
  split <;> rfl

@[simp]
theorem State.accept_pass (q : Request) : (s.accept q).pass = s.pass := by
  unfold State.accept
  split <;> rfl

@[simp]
theorem State.release_db (w : Nat) (p : Pass) : (s.release w p).db = s.db := by
  unfold State.release
  split <;> rfl

@[simp]
theorem State.release_targetFile (w : Nat) (p : Pass) :
    (s.release w p).targetFile = s.targetFile := by
  unfold State.release
  split <;> rfl

@[simp]
theorem State.release_attempt (w : Nat) (p : Pass) :
    (s.release w p).attempt = s.attempt := by
  unfold State.release
  split <;> rfl

@[simp]
theorem State.release_accepted (w : Nat) (p : Pass) :
    (s.release w p).accepted = s.accepted := by
  unfold State.release
  split <;> rfl

end Parts

theorem Runs.request {s : State} {r : Nat} {st : Statement}
    (hs : (s.request r).call = some st) : Runs s (.request r .write) st := by
  rcases Request.call_cases hs with ⟨_, _, rfl⟩ | ⟨_, _, _, _, rfl, -⟩ | ⟨_, rfl⟩ <;>
    exact ⟨r, rfl, hs⟩

/-- The tables change only by the statement a step runs. -/
theorem Step.runs {s s' : State} {act : Action} (h : Step s act s') :
    s'.db = s.db ∨ ∃ st, Runs s act st ∧ st.exec s.now s.db = some s'.db := by
  have run : ∀ {st : Statement}, st.exec s.now s.db = some s'.db → Runs s act st →
      s'.db = s.db ∨ ∃ st, Runs s act st ∧ st.exec s.now s.db = some s'.db :=
    fun hex hruns => .inr ⟨_, hruns, hex⟩
  cases h with
  | claim _ hex _ => exact run hex ⟨_, rfl⟩
  | owner hx hex => exact run hex ⟨_, _, rfl, hx, rfl, rfl⟩
  | beginPublish hx hs hex => exact run hex ⟨_, _, rfl, hx, .inl hs⟩
  | beginDropped hx hs hex => exact run hex ⟨_, _, rfl, hx, .inr hs⟩
  | finalize hx hs hex => exact run hex (.inl ⟨_, _, rfl, hx, hs⟩)
  | finishControl hx hs hex => exact run hex ⟨_, _, rfl, hx, rfl, rfl, hs⟩
  | failOrRetry hx hs hex => exact run hex ⟨_, _, _, rfl, hx, rfl, rfl, hs⟩
  | passFinalize hs hex => exact run hex (.inr ⟨_, _, _, rfl, hs⟩)
  | @passRecover _ journal _ _ _ hs hex =>
      rw [State.release_db] at run ⊢
      exact run hex ⟨_, _, _, _, rfl, rfl, hs⟩
  | passRecoverCancelled hs hex => exact run hex ⟨_, _, _, _, rfl, rfl, hs⟩
  | passFail hs hex => exact run hex ⟨_, _, _, rfl, rfl, hs⟩
  | recoverExpired hex => exact run hex ⟨_, rfl⟩
  | requeueOwned hex => exact run hex rfl
  | requestWrite hs hex =>
      simp only [State.setRequest, State.accept_db] at run ⊢
      exact run hex (.request hs)
  | create hex => exact run hex rfl
  | passRelease => exact .inl (State.release_db ..)
  | move | leave | drop | lockNew | lockFree | openNew | write | prepare | publish
  | removePartial | ended | stop | passMove | passLock | passConfirm | passRemove
  | requestMove | requestUnlink | tick | createTarget | removeTarget =>
      exact .inl rfl

/-- What a step does to the entry of one task. -/
theorem Step.change {s s' : State} {act : Action} (h : Step s act s')
    (hfresh : s.db.entry s.db.nextId = .empty) (t : Nat) :
    s'.db.entry t = s.db.entry t ∨
      ∃ st, Runs s act st ∧ Change s.now st t (s.db.entry t) (s'.db.entry t) := by
  rcases h.runs with hdb | ⟨st, hruns, hex⟩
  · exact .inl (by rw [hdb])
  · exact .inr ⟨st, hruns, Statement.exec_change hfresh hex t⟩

end Zos.Downloader
