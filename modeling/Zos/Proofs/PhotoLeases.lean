import Zos.Lib.Keyed
import Zos.Photostaff.Workers

/-!
# Leases on photo jobs

A row of the job table moves in a few ways only, and none of them takes a job from a worker
whose lease has not run out, or wakes a job that has ended: the worker is cleared with the
status, so the one statement that does not ask for the status finds nobody. Entries and
journals are written only by those who may.
-/

namespace Zos.Photostaff

open Zos.Lib

variable {db db' : Db} {statement : Statement} {row row' : JobRow}
  {id jobId worker now expiry : Nat} {path : String}

theorem some_of_ite {α : Type} {p : Prop} [Decidable p] {a b : α}
    (h : (if p then some a else none) = some b) : p ∧ a = b := by
  obtain ⟨hp, hab⟩ := Option.ite_none_right_eq_some.mp h
  exact ⟨hp, Option.some.inj hab⟩

theorem Db.Consistent.same (h : db.Consistent) (hrow : row ∈ db.jobs) (hrow' : row' ∈ db.jobs)
    (hid : row.id = row'.id) : row = row' :=
  List.inj_on_of_nodup_map h.jobs hrow hrow' hid

/-! ## Rows -/

structure Moved (statement : Statement) (row row' : JobRow) : Prop where
  id : row'.id = row.id
  held : row.Held → row'.Held
  ended : row.Held → row.status.ended = true → row' = row
  fenced : ∀ worker expiry, row.LeasedTo worker expiry → statement.Foreign worker expiry →
    row' = row

theorem Moved.refl : Moved statement row row :=
  ⟨rfl, fun h => h, fun _ _ => rfl, fun _ _ _ _ => rfl⟩

theorem not_ended (h : row.status = .running) : row.status.ended ≠ true := by
  rw [h]
  decide

theorem JobRow.LeasedTo.not_expired (h : row.LeasedTo worker expiry)
    (hforeign : statement.Foreign worker expiry) (hclock : statement.clock = some now) :
    row.expired now ≠ true := by
  have hbefore : now < expiry := hforeign.before now (by simp [hclock])
  simpa [JobRow.expired, h.expiry] using hbefore

/-- A worker's own row. -/
theorem Moved.own (hworker : statement.worker = some worker) (hrow : row.workerId = some worker)
    (hid : row'.id = row.id) (hheld : row'.Held) : Moved statement row row' where
  id := hid
  held _ := hheld
  ended h hended := absurd hended (not_ended (h.1.mp (by simp [hrow])))
  fenced _ _ hleased hforeign :=
    absurd (hworker.trans (hrow.symm.trans hleased.worker)) hforeign.other

theorem Moved.requeueExpired (hclock : statement.clock = some now) :
    Moved statement row (row.requeueExpired now) := by
  unfold JobRow.requeueExpired
  split
  · next h =>
    exact ⟨rfl, fun _ => by simp [JobRow.Held], fun _ hended => absurd hended (not_ended h.1),
      fun _ _ hleased hforeign => absurd h.2 (hleased.not_expired hforeign hclock)⟩
  · exact .refl

theorem of_claimable (h : (row.requeueExpired now).claimable now = true) :
    row.status.ended ≠ true ∧ (row.status = .running → row.expired now = true) := by
  unfold JobRow.requeueExpired at h
  split at h
  · next hexpired => exact ⟨not_ended hexpired.1, fun _ => hexpired.2⟩
  · rcases of_decide_eq_true h with h | h <;> simp [h, JobStatus.ended]

theorem Moved.claim (hclock : statement.clock = some now)
    (h : (row.requeueExpired now).claimable now = true) :
    Moved statement row ((row.requeueExpired now).claim worker now) where
  id := (Moved.requeueExpired hclock).id
  held _ := by simp [JobRow.Held, JobRow.claim]
  ended _ hended := absurd hended (of_claimable h).1
  fenced _ _ hleased hforeign :=
    absurd ((of_claimable h).2 hleased.running) (hleased.not_expired hforeign hclock)

inductive JobsMoved (statement : Statement) (jobs : List JobRow) : List JobRow → Prop where
  | updated {f : JobRow → JobRow} (h : ∀ row ∈ jobs, Moved statement row (f row)) :
      JobsMoved statement jobs (jobs.map f)
  | added {row : JobRow} (held : row.Held) (new : ∀ old ∈ jobs, old.id ≠ row.id) :
      JobsMoved statement jobs (jobs ++ [row])

theorem JobsMoved.refl : JobsMoved statement db.jobs db.jobs := by
  have h : JobsMoved statement db.jobs (db.jobs.map fun row => row) := .updated fun _ _ => .refl
  rwa [List.map_id'] at h

theorem JobsMoved.ite {p : JobRow → Prop} [DecidablePred p] {f : JobRow → JobRow}
    (h : ∀ row, p row → Moved statement row (f row)) :
    JobsMoved statement db.jobs (db.jobs.map fun row => if p row then f row else row) := by
  refine .updated fun row _ => ?_
  split
  · next hp => exact h row hp
  · exact .refl

theorem JobsMoved.kept {jobs jobs' : List JobRow} (h : JobsMoved statement jobs jobs')
    (hrow : row ∈ jobs) : ∃ row' ∈ jobs', Moved statement row row' := by
  cases h with
  | updated hmoved => exact ⟨_, List.mem_map_of_mem hrow, hmoved row hrow⟩
  | added => exact ⟨row, List.mem_append_left _ hrow, .refl⟩

/-! ## The other tables -/

/-- Only jobs in `T` have their entries and journals changed. -/
structure Effect (db db' : Db) (T : Nat → Prop) : Prop where
  journalled : db.Journalled → db'.Journalled
  work : ∀ id, ¬ T id → db'.workOf id = db.workOf id

section Effect

variable {T : Nat → Prop}

theorem Effect.of_eq (hentries : db'.entries = db.entries)
    (hjournals : db'.journals = db.journals) : Effect db db' T := by
  constructor
  · exact fun h => ⟨hjournals ▸ h.operations, hjournals ▸ h.photos⟩
  · simp [Db.workOf, hentries, hjournals]

theorem Effect.jobs {jobs : List JobRow} : Effect db { db with jobs := jobs } T := .of_eq rfl rfl

theorem Effect.trans {mid : Db} (h : Effect db mid T) (h' : Effect mid db' T) : Effect db db' T :=
  ⟨h'.journalled ∘ h.journalled, fun id hid => (h'.work id hid).trans (h.work id hid)⟩

theorem Effect.updateEntries {f : ScanEntry → ScanEntry}
    (hjob : ∀ entry, (f entry).jobId = entry.jobId)
    (hT : ∀ entry, ¬ T entry.jobId → f entry = entry) : Effect db (db.updateEntries f) T := by
  refine ⟨fun h => ⟨h.1, h.2⟩, fun id hid => ?_⟩
  show ((db.entries.map f).filter _, _) = _
  rw [List.filter_map, List.map_congr_left (g := fun entry => entry)]
  · simp [Function.comp_def, hjob, Db.workOf, Db.updateEntries]
  · intro entry hentry
    have hjobId : entry.jobId = id := by simpa [hjob] using (List.mem_filter.mp hentry).2
    exact hT entry (hjobId ▸ hid)

theorem Effect.updateEntry {f : ScanEntry → ScanEntry}
    (hjob : ∀ entry, (f entry).jobId = entry.jobId) (hT : T jobId) :
    Effect db (db.updateEntry jobId path f) T := by
  refine .updateEntries (fun entry => ?_) fun entry hid => if_neg ?_
  · split
    · exact hjob entry
    · rfl
  · rintro ⟨rfl, -⟩
    exact hid hT

theorem Effect.requeueEntries {ofJob : Nat → Bool} (hT : ∀ id, ofJob id = true → T id) :
    Effect db (db.requeueEntries ofJob) T := by
  refine .updateEntries (fun entry => ?_) fun entry hid => if_neg fun h => hid (hT _ ?_)
  · split <;> rfl
  · exact h.1

theorem Effect.insertEntry {entryType : EntryType} (hT : T jobId) :
    Effect db (db.insertEntry jobId path entryType) T := by
  unfold Db.insertEntry
  split
  · exact .of_eq rfl rfl
  · refine ⟨fun h => ⟨h.1, h.2⟩, fun id hid => ?_⟩
    simp [Db.workOf, List.filter_append, show jobId ≠ id from fun h => hid (h ▸ hT)]

theorem Effect.deleteJournal {operationId : Nat}
    (hT : ∀ record ∈ db.journals, record.operationId = operationId → T record.jobId) :
    Effect db (db.deleteJournal operationId) T := by
  have hsub : (db.deleteJournal operationId).journals.Sublist db.journals := List.filter_sublist
  refine ⟨fun h => ⟨h.1.sublist (hsub.map _), h.2.sublist (hsub.map _)⟩, fun id hid => ?_⟩
  simp only [Db.workOf, Db.deleteJournal, List.filter_filter, Prod.mk.injEq, true_and]
  refine List.filter_congr fun record hrecord => ?_
  by_cases hjob : record.jobId = id
  · have hne : record.operationId ≠ operationId := fun h => hid (hjob ▸ hT record hrecord h)
    simp [hjob, hne]
  · simp [hjob]

theorem Effect.insertJournal {record : PublishRecord} (hT : T record.jobId)
    (hoperation : db.hasJournal record.operationId ≠ true)
    (hjournal : ¬ (db.journals.any fun journal =>
      journal.jobId = record.jobId ∧ journal.location.path = record.location.path) = true) :
    Effect db { db with journals := db.journals ++ [record] } T := by
  refine ⟨fun h => ⟨nodup_map_concat.mpr ⟨h.1, fun old hold hkey => hoperation ?_⟩,
    nodup_map_concat.mpr ⟨h.2, fun old hold hkey => hjournal ?_⟩⟩, fun id hid => ?_⟩
  · exact List.any_eq_true.mpr ⟨old, hold, decide_eq_true hkey⟩
  · obtain ⟨hjob, hpath⟩ := Prod.mk.inj hkey
    exact List.any_eq_true.mpr ⟨old, hold, by simp [hjob, hpath]⟩
  · simp [Db.workOf, List.filter_append, show record.jobId ≠ id from fun h => hid (h ▸ hT)]

end Effect

/-! ## One statement -/

/-- The job is there, and if it is leased then not against the statement. -/
def May (db : Db) (statement : Statement) (id : Nat) : Prop :=
  ∃ row ∈ db.jobs, row.id = id ∧
    ∀ worker expiry, row.LeasedTo worker expiry → ¬ statement.Foreign worker expiry

theorem may_of_worker (hrow : row ∈ db.jobs) (hid : row.id = id)
    (hworker : row.workerId = some worker) (hs : statement.worker = some worker) :
    May db statement id :=
  ⟨row, hrow, hid, fun _ _ hleased hforeign =>
    hforeign.other (hs.trans (hworker.symm.trans hleased.worker))⟩

theorem may_of_owned (h : ensureJobOwned db id worker now = true)
    (hs : statement.worker = some worker) : May db statement id := by
  obtain ⟨row, hrow, hown⟩ := List.any_eq_true.mp h
  obtain ⟨hid, -, hworker, -⟩ := of_decide_eq_true hown
  exact may_of_worker hrow hid hworker hs

theorem may_of_mayPublish {owner : Option Nat} (h : mayPublish db id owner now = true)
    (hs : statement.worker = owner) (hclock : statement.clock = some now) :
    May db statement id := by
  cases owner with
  | some worker => exact may_of_owned h hs
  | none =>
      obtain ⟨row, hrow, hfree⟩ := List.any_eq_true.mp h
      obtain ⟨hid, hfree⟩ := of_decide_eq_true hfree
      refine ⟨row, hrow, hid, fun worker expiry hleased hforeign => ?_⟩
      rcases hfree with hstatus | hexpired
      · exact hstatus hleased.running
      · exact hleased.not_expired hforeign hclock hexpired

structure Executed (statement : Statement) (db db' : Db) : Prop where
  jobs : JobsMoved statement db.jobs db'.jobs
  effect : Effect db db' (May db statement)

theorem Executed.work (hjobs : db'.jobs = db.jobs) (h : Effect db db' (May db statement)) :
    Executed statement db db' :=
  ⟨hjobs ▸ .refl, h⟩

theorem Executed.refl : Executed statement db db := .work rfl (.of_eq rfl rfl)

theorem executed_insertJob {settings : LibrarySettings} {kind : JobKind}
    (h : ¬ db.jobs.any (·.id = id) = true) :
    Executed statement db (insertJob db settings kind path id now) := by
  refine ⟨.added (by simp [JobRow.Held]) fun old hold hid => h ?_, .of_eq rfl rfl⟩
  exact List.any_eq_true.mpr ⟨old, hold, decide_eq_true hid⟩

theorem executed_claimJob (h : db.Consistent) {choice : Option Nat}
    (hs : (claimJob db worker choice now).map (·.2) = some db')
    (hclock : statement.clock = some now) : Executed statement db db' := by
  obtain ⟨out, hout, rfl⟩ := Option.map_eq_some_iff.mp hs
  cases choice with
  | none =>
      obtain ⟨-, hout⟩ := Option.ite_none_left_eq_some.mp hout
      obtain rfl := Option.some.inj hout
      exact ⟨.updated fun row _ => .requeueExpired hclock, .of_eq rfl rfl⟩
  | some id =>
      obtain ⟨found, hfound, hout⟩ := Option.bind_eq_some_iff.mp hout
      obtain rfl := Option.some.inj hout
      obtain ⟨old, hold, rfl⟩ := List.mem_map.mp (List.mem_of_find?_eq_some hfound)
      obtain ⟨hid, hclaimable⟩ : (old.requeueExpired now).id = id ∧
        (old.requeueExpired now).claimable now = true := by simpa using List.find?_some hfound
      rw [(Moved.requeueExpired hclock).id] at hid
      constructor
      · show JobsMoved statement db.jobs ((db.jobs.map _).map _)
        rw [List.map_map]
        refine .updated fun row hrow => ?_
        show Moved statement row (if (row.requeueExpired now).id = id then _ else _)
        rw [(Moved.requeueExpired hclock).id]
        split
        · next hrowId =>
          obtain rfl := h.same hrow hold (hrowId.trans hid.symm)
          exact .claim hclock hclaimable
        · exact .requeueExpired hclock
      · have hmay : ∀ other, decide (other = id) = true → May db statement other := by
          intro other hother
          refine ⟨old, hold, hid.trans (of_decide_eq_true hother).symm, ?_⟩
          exact fun _ _ hleased hforeign => hleased.not_expired hforeign hclock
            ((of_claimable hclaimable).2 hleased.running)
        exact .trans (.trans .jobs .jobs) (.requeueEntries hmay)

theorem executed_work (hworker : statement.worker = some worker) {work : Work}
    (hs : work.execute db worker now = some db') : Executed statement db db' := by
  have hinsert {jobId : Nat} {path : String} {entryType : EntryType}
      (hs : addScanEntry db jobId path entryType worker now = some db') :
      Executed statement db db' := by
    obtain ⟨howned, rfl⟩ := some_of_ite hs
    refine .work ?_ (.insertEntry (may_of_owned howned hworker))
    unfold Db.insertEntry
    split <;> rfl
  cases work with
  | finishJob job =>
      obtain ⟨-, rfl⟩ := some_of_ite hs
      exact ⟨.ite fun row hown => .own hworker hown.2.1 rfl (by simp [JobRow.Held]),
        .of_eq rfl rfl⟩
  | addScanEntry jobId path entryType => exact hinsert hs
  | initializeScan job => exact hinsert hs
  | claimEntry jobId entryType path =>
      obtain ⟨hguard, rfl⟩ := some_of_ite hs
      exact .work rfl (.updateEntry (fun _ => rfl) (may_of_owned hguard.1 hworker))
  | completeEntry jobId path | skipEntry jobId path | failEntry jobId path nextRetryAt =>
      obtain ⟨howned, rfl⟩ := some_of_ite hs
      exact .work rfl (.updateEntry (fun _ => rfl) (may_of_owned howned hworker))
  | markCurrentIfUnchanged job path source sidecar =>
      obtain ⟨out, hout, rfl⟩ := Option.map_eq_some_iff.mp hs
      obtain ⟨-, hout⟩ := Option.ite_none_right_eq_some.mp hout
      split at hout <;> obtain rfl := Option.some.inj hout <;> exact .work rfl (.of_eq rfl rfl)
  | recordFailedAsset job path source =>
      obtain ⟨-, rfl⟩ := some_of_ite hs
      exact .work rfl (.of_eq rfl rfl)
  | beginPublish record =>
      obtain ⟨hnew, hs⟩ := Option.ite_none_left_eq_some.mp hs
      obtain ⟨⟨howned, hjournal⟩, rfl⟩ := some_of_ite hs
      rw [if_neg hnew]
      exact .work rfl (.insertJournal (may_of_owned howned hworker) hnew hjournal)

theorem executed_of_execute (h : db.Consistent) (hs : execute db statement = some db') :
    Executed statement db db' := by
  cases statement with
  | ensurePeriodicJob settings interval id now =>
      obtain ⟨hnew, hs⟩ := Option.ite_none_left_eq_some.mp hs
      obtain rfl := Option.some.inj hs
      unfold ensurePeriodicJob
      split
      · exact .refl
      · split
        · exact .refl
        · exact executed_insertJob hnew
  | enqueuePhotostaffJob settings kind path queueAfterRunning id now =>
      obtain ⟨hnew, hs⟩ := Option.ite_none_left_eq_some.mp hs
      obtain rfl := Option.some.inj hs
      unfold enqueuePhotostaffJob
      split
      · exact .refl
      · exact executed_insertJob hnew
  | savePhotostaffLibrarySettings rootId storagePoolId path now =>
      simp only [execute, savePhotostaffLibrarySettings] at hs
      split at hs
      · obtain rfl := Option.some.inj hs
        exact .refl
      · obtain ⟨-, hs⟩ := Option.ite_none_left_eq_some.mp hs
        obtain rfl := Option.some.inj hs
        refine ⟨.updated fun row _ => ?_, .of_eq rfl rfl⟩
        split
        · exact .refl
        · next hended =>
          exact ⟨rfl, fun _ => by simp [JobRow.Held], fun _ h => absurd h hended,
            fun _ _ _ hforeign => absurd rfl (hforeign.library _ _ _ _)⟩
  | claimJob worker choice now => exact executed_claimJob h hs rfl
  | renewLease jobId worker now =>
      obtain rfl := Option.some.inj hs
      exact ⟨.ite fun row hown => .own rfl hown.2.2 rfl (by simp [JobRow.Held, hown.2]),
        .of_eq rfl rfl⟩
  | retryOrFailJob job worker nextRetryAt =>
      obtain rfl := Option.some.inj hs
      refine ⟨.ite fun row hown => .own rfl hown.2 rfl ?_, .of_eq rfl rfl⟩
      cases nextRetryAt <;> simp [JobRow.Held]
  | releaseWorker worker =>
      obtain rfl := Option.some.inj hs
      refine ⟨.ite fun row hown => .own rfl hown.2 rfl (by simp [JobRow.Held]),
        .trans (.requeueEntries fun id howns => ?_) .jobs⟩
      obtain ⟨row, hrow, hown⟩ := List.any_eq_true.mp howns
      obtain ⟨hid, hworker⟩ := of_decide_eq_true hown
      exact may_of_worker hrow hid hworker rfl
  | work worker now work => exact executed_work rfl hs
  | completePublish record worker now =>
      obtain ⟨hjournal, hs⟩ := Option.ite_none_left_eq_some.mp hs
      obtain ⟨out, hout, rfl⟩ := Option.map_eq_some_iff.mp hs
      unfold completePublish at hout
      split at hout
      · obtain rfl := Option.some.inj hout
        exact .refl
      · next hhas =>
        obtain ⟨hguard, rfl⟩ := some_of_ite hout
        have hrecord : record ∈ db.journals := by
          by_contra hnot
          exact hjournal ⟨by simpa using hhas, hnot⟩
        have hmay : May db (.completePublish record worker now) record.jobId :=
          may_of_mayPublish hguard rfl rfl
        refine .work rfl (.trans ?_ (.deleteJournal fun other hother hid => ?_))
        · refine .trans ?_ (.updateEntry (fun _ => rfl) hmay)
          exact .of_eq rfl rfl
        · exact List.inj_on_of_nodup_map h.operations hother hrecord hid ▸ hmay
  | abortJournal operationId requeue worker now =>
      simp only [execute, abortJournal] at hs
      split at hs
      · obtain rfl := Option.some.inj hs
        exact .refl
      · next journal hfound =>
        split at hs
        · next hguard =>
          obtain rfl := Option.some.inj hs
          have hmay : May db (.abortJournal operationId requeue worker now) journal.jobId :=
            may_of_mayPublish hguard rfl rfl
          have hdelete : ∀ record ∈ db.journals, record.operationId = operationId →
              May db (.abortJournal operationId requeue worker now) record.jobId := by
            intro record hrecord hid
            have hfind := (find?_key_iff h.operations).mpr ⟨hrecord, hid⟩
            exact Option.some.inj (hfound.symm.trans hfind) ▸ hmay
          cases requeue with
          | true =>
              refine .work rfl (.trans ?_ (.deleteJournal hdelete))
              exact .updateEntry (fun _ => rfl) hmay
          | false => exact .work rfl (.deleteJournal hdelete)
        · split at hs
          · cases hs
          · obtain rfl := Option.some.inj hs
            exact .refl

/-! ## Runs -/

theorem Db.Consistent.execute (h : db.Consistent) (hs : execute db statement = some db') :
    db'.Consistent := by
  obtain ⟨hjobs, heffect⟩ := executed_of_execute h hs
  have hrows : (db'.jobs.map (·.id)).Nodup ∧ ∀ row ∈ db'.jobs, row.Held := by
    generalize db'.jobs = jobs at hjobs
    cases hjobs with
    | updated hmoved =>
        have hids := List.map_congr_left fun row hrow => (hmoved row hrow).id
        refine ⟨by rw [List.map_map]; exact hids ▸ h.jobs, ?_⟩
        simp only [List.forall_mem_map]
        exact fun row hrow => (hmoved row hrow).held (h.held row hrow)
    | added hheld hnew =>
        refine ⟨nodup_map_concat.mpr ⟨h.jobs, hnew⟩, ?_⟩
        simpa [or_imp, forall_and] using ⟨h.held, hheld⟩
  refine ⟨heffect.journalled h.toJournalled, hrows.1, hrows.2, fun id hwork => ?_⟩
  obtain ⟨row, hrow, hid⟩ : ∃ row ∈ db.jobs, row.id = id := by
    by_cases hmay : May db statement id
    · obtain ⟨row, hrow, hid, -⟩ := hmay
      exact ⟨row, hrow, hid⟩
    · exact h.ofJobs id (heffect.work id hmay ▸ hwork)
  obtain ⟨row', hrow', hmoved⟩ := hjobs.kept hrow
  exact ⟨row', hrow', hmoved.id.trans hid⟩

theorem consistent_of_reach (h : Reach execute anyStep (· = Db.empty) db) : db.Consistent := by
  refine h.invariant (fun db hdb => ?_) fun _ _ _ h _ hs => h.execute hs
  subst hdb
  exact ⟨⟨List.nodup_nil, List.nodup_nil⟩, List.nodup_nil, by simp [Db.empty],
    fun id h => absurd rfl h⟩

theorem tables_consistent (s : Reached) : s.db.Consistent := consistent_of_reach s.reached

/-- The columns that a worker goes by; publishing a photo of the job may still count it. -/
theorem ended_job_stays (s : Reached) (statements : List Statement)
    (hs : run execute s.db statements = some db') (hrow : row ∈ s.db.jobs)
    (hended : row.status.ended = true) :
    ∃ kept ∈ db'.jobs, kept.id = row.id ∧ kept.status = row.status ∧
      kept.workerId = row.workerId ∧ kept.leaseExpiresAt = row.leaseExpiresAt ∧
      kept.nextRetryAt = row.nextRetryAt := by
  have hkept : row ∈ db'.jobs := by
    refine (run_keeps (fun db => db.Consistent ∧ row ∈ db.jobs)
      ⟨consistent_of_reach s.reached, hrow⟩ ?_ hs).2
    rintro statement - db db' ⟨hdb, hrow⟩ hs
    obtain ⟨row', hrow', hmoved⟩ := (executed_of_execute hdb hs).jobs.kept hrow
    exact ⟨hdb.execute hs, hmoved.ended (hdb.held row hrow) hended ▸ hrow'⟩
  exact ⟨row, hkept, rfl, rfl, rfl, rfl, rfl⟩

/-- A full scan that worker 7 has claimed. -/
def claimed : JobRow where
  id := 1
  kind := .fullScan
  rootId := "r"
  storagePoolId := "s"
  path := "p"
  libraryUpdatedAt := 0
  scanGeneration := 1
  status := .running
  workerId := some 7
  leaseExpiresAt := some 30000
  nextRetryAt := none
  createdAt := 0

def afterClaim : Reached where
  db := ⟨none, [claimed], [], [], []⟩
  reached := .of_run (.init rfl) (fun _ _ _ => trivial) (show run execute Db.empty
    [.ensurePeriodicJob ⟨"r", "s", "p", 0⟩ 0 1 0, .claimJob 7 (some 1) 0] = some _ from rfl)

def photo : PublishRecord where
  operationId := 1
  jobId := 1
  location := ⟨"r", "s", "p/a.jpg"⟩
  libraryUpdatedAt := 0
  scanGeneration := 1
  source := ⟨0, 0, 0, 0, 0⟩
  sidecar := none
  thumbnail := ⟨⟨.thumbnail, 0⟩, 0, ⟨0, 0, 0, 0, 0⟩⟩
  preview := ⟨⟨.preview, 0⟩, 1, ⟨0, 0, 0, 0, 0⟩⟩

def failed : JobRow :=
  { claimed with status := .failed, workerId := none, leaseExpiresAt := none }

/-- The job has failed between the journal of a photo and its publication. -/
def afterFailure : Reached where
  db := ⟨none, [failed], [], [], [photo]⟩
  reached := .of_run afterClaim.reached (fun _ _ _ => trivial) (show run execute afterClaim.db
    [.work 7 10 (.beginPublish photo), .retryOrFailJob claimed.toJob 7 none] = some _ from rfl)

theorem ended_job_stays_at_recovery : ∃ db',
    run execute afterFailure.db
        [.retryOrFailJob claimed.toJob 7 (some 50), .completePublish photo none 20] = some db' ∧
      db'.journals = [] ∧ ∃ kept ∈ db'.jobs, kept.id = 1 ∧ kept.status = .failed ∧
        kept.workerId = none ∧ kept.leaseExpiresAt = none ∧ kept.nextRetryAt = none :=
  ⟨_, rfl, rfl, ended_job_stays afterFailure
    [.retryOrFailJob claimed.toJob 7 (some 50), .completePublish photo none 20] rfl
    (List.mem_singleton_self failed) rfl⟩

theorem leased_job_untouched (s : Reached) (statements : List Statement)
    (hs : run execute s.db statements = some db') (hrow : row ∈ s.db.jobs)
    (hleased : row.LeasedTo worker expiry)
    (hforeign : ∀ statement ∈ statements, statement.Foreign worker expiry) :
    row ∈ db'.jobs ∧ db'.workOf row.id = s.db.workOf row.id := by
  refine (run_keeps (fun db => db.Consistent ∧ row ∈ db.jobs ∧
    db.workOf row.id = s.db.workOf row.id) ⟨consistent_of_reach s.reached, hrow, rfl⟩ ?_ hs).2
  rintro statement hstatement db db' ⟨hdb, hrow, hwork⟩ hs
  obtain ⟨hjobs, heffect⟩ := executed_of_execute hdb hs
  obtain ⟨row', hrow', hmoved⟩ := hjobs.kept hrow
  have hforeign := hforeign statement hstatement
  refine ⟨hdb.execute hs, hmoved.fenced worker expiry hleased hforeign ▸ hrow', ?_⟩
  refine (heffect.work row.id ?_).trans hwork
  rintro ⟨other, hother, hid, hfree⟩
  obtain rfl := hdb.same hrow hother hid.symm
  exact hfree worker expiry hleased hforeign

theorem leased_job_untouched_by_rival : ∃ db',
    run execute afterClaim.db [.claimJob 8 none 29999] = some db' ∧ claimed ∈ db'.jobs := by
  refine ⟨_, rfl, (leased_job_untouched afterClaim [.claimJob 8 none 29999] rfl
    (List.mem_singleton_self claimed) ⟨rfl, rfl, rfl⟩ ?_).1⟩
  simp only [List.mem_singleton, forall_eq]
  exact ⟨by decide, by decide, by simp⟩

end Zos.Photostaff
