import Zos.Proofs.BatchSteps

/-!
# Batches over crashes

The counters of a batch are recomputed from its items in every transaction
that finishes or cancels one, so they are exact in every state.

A restart puts back the items of running jobs and looks at no other job. What
is left of a cancelled batch is therefore nobody's business any more: an item
that was being worked on when the process stopped stays `running`, and after
a stop between the two transactions of the cancel route the queued items stay
`queued`. Without such a stop a recovered batch is either still to be worked
on, with no item running, or over.
-/

namespace Zos.Batches

open Zos.Lib

/-! ## Counters -/

/-- The counters say what the items say. -/
structure Batch.Counted (b : Batch) : Prop where
  total : b.totalCount = b.items.length
  completed : b.completedCount = b.items.countP (·.finished)
  success : b.successCount = b.items.countP (·.status == .completed)
  failed : b.failedCount = b.items.countP (·.status == .failed)
  cancelled : b.cancelledCount = b.items.countP (·.status == .cancelled)

theorem countP_finished (items : List Item) :
    items.countP (·.finished) = items.countP (·.status == .completed) +
      items.countP (·.status == .failed) + items.countP (·.status == .cancelled) := by
  induction items with
  | nil => rfl
  | cons item items ih =>
      rw [List.countP_cons, List.countP_cons, List.countP_cons, List.countP_cons, ih]
      unfold Item.finished
      cases item.status <;> simp <;> omega

theorem Batch.Counted.sum {b : Batch} (h : b.Counted) :
    b.completedCount = b.successCount + b.failedCount + b.cancelledCount ∧
      b.completedCount ≤ b.totalCount := by
  rw [h.completed, h.success, h.failed, h.cancelled, h.total]
  exact ⟨countP_finished _, List.countP_le_length⟩

theorem newBatch_counted (input : BatchInput) (uuid : Nat → String) :
    (newBatch input uuid).Counted := by
  refine ⟨by simp [newBatch], ?_, ?_, ?_, ?_⟩ <;>
    exact (List.countP_eq_zero.mpr fun item hitem => by
      simp [newBatch_status hitem, Item.finished]).symm

/-- An update that takes no item into or out of a final status. -/
theorem Batch.Counted.update {b b' : Batch} (h : b.Counted)
    (hcounts : b'.totalCount = b.totalCount ∧ b'.completedCount = b.completedCount ∧
      b'.successCount = b.successCount ∧ b'.failedCount = b.failedCount ∧
      b'.cancelledCount = b.cancelledCount)
    (hitems : List.Forall₂ (fun i i' => i' = i ∨ i.active = true ∧ i'.active = true)
      b.items b'.items) : b'.Counted := by
  have hcount : ∀ p : Item → Bool, (∀ i, i.active = true → p i = false) →
      b'.items.countP p = b.items.countP p := by
    intro p hp
    refine countP_of_forall₂ (hitems.imp fun i i' h => ?_)
    rcases h with rfl | ⟨hi, hi'⟩
    · rfl
    · rw [hp i hi, hp i' hi']
  obtain ⟨ht, hc, hs, hf, hx⟩ := hcounts
  have hstatus : ∀ i : Item, i.active = true → i.status = .queued ∨ i.status = .running :=
    fun i hi => by simpa [Item.active] using hi
  refine ⟨by rw [ht, h.total, hitems.length_eq], ?_, ?_, ?_, ?_⟩
  · rw [hc, h.completed, hcount]
    intro i hi
    rcases hstatus i hi with h | h <;> simp [Item.finished, h]
  · rw [hs, h.success, hcount]
    intro i hi
    rcases hstatus i hi with h | h <;> simp [h]
  · rw [hf, h.failed, hcount]
    intro i hi
    rcases hstatus i hi with h | h <;> simp [h]
  · rw [hx, h.cancelled, hcount]
    intro i hi
    rcases hstatus i hi with h | h <;> simp [h]

theorem Batch.refreshBatchCounts_counted {b : Batch} (h : b.totalCount = b.items.length) :
    b.refreshBatchCounts.Counted := ⟨h, rfl, rfl, rfl, rfl⟩

theorem Batch.Counted.claim {b : Batch} (h : b.Counted) {ordinal : Nat}
    (hclaim : b.claimable ordinal = true) : (b.claim ordinal).Counted := by
  refine h.update ⟨rfl, rfl, rfl, rfl, rfl⟩ (forall₂_modify (fun _ => .inl rfl) ?_)
  intro item hitem
  simp only [Batch.claimable, hitem, Option.any_some, Bool.and_eq_true, beq_iff_eq] at hclaim
  exact .inr ⟨by rw [Item.active, hclaim.2]; rfl, rfl⟩

theorem Batch.Counted.finish {b : Batch} (h : b.Counted) (ordinal now : Nat)
    (outcome : Outcome) (error : Option String) :
    (b.finish ordinal outcome error now).1.Counted := by
  have hcounted : (b.marked ordinal outcome error).refreshBatchCounts.Counted := by
    refine Batch.refreshBatchCounts_counted ?_
    rw [Batch.marked_totalCount, h.total, (b.marked_items ordinal outcome error).length_eq]
  rw [Batch.finish_eq]
  unfold Batch.closeIfDone
  split
  · exact ⟨hcounted.total, rfl, rfl, rfl, rfl⟩
  · exact ⟨hcounted.total, rfl, rfl, rfl, rfl⟩

theorem Batch.Counted.cancelItems {b : Batch} (h : b.Counted) (now : Nat) :
    (b.cancelItems now).Counted := by
  have htotal : b.totalCount = b.cancelQueued.items.length := by
    rw [h.total, b.cancelQueued_items.length_eq]
  simp only [Batch.cancelItems]
  split
  · exact ⟨htotal, rfl, rfl, rfl, rfl⟩
  · exact ⟨htotal, rfl, rfl, rfl, rfl⟩

theorem Batch.Counted.recover {b : Batch} (h : b.Counted) : b.recover.Counted := by
  have hitems : List.Forall₂ (fun i i' => i' = i ∨ i.active = true ∧ i'.active = true)
      b.items (b.items.map fun item =>
        if item.status = .running then { item with status := .queued, error := none }
        else item) := by
    refine forall₂_map fun item _ => ?_
    split
    · next hr => exact .inr ⟨by rw [Item.active, hr]; rfl, rfl⟩
    · exact .inl rfl
  unfold Batch.recover
  split
  · exact h.update ⟨rfl, rfl, rfl, rfl, rfl⟩ hitems
  · dsimp only
    split
    · exact ⟨h.total, h.completed, h.success, h.failed, h.cancelled⟩
    · exact h

theorem counted {C : State → Action → Prop} {s : State} (h : Reach step C Initial s)
    {b : Batch} (hb : b ∈ s.db) : b.Counted := by
  obtain ⟨i, hi⟩ := List.mem_iff_getElem?.mp hb
  refine batches_invariant (I := fun _ b => b.Counted) (fun _ => newBatch_counted) ?_
    (fun _ _ _ _ _ hb => hb.recover) h hi
  intro p b p' b' hb hstep
  cases hstep with
  | claim hclaim => exact hb.claim hclaim
  | finish => exact hb.finish ..
  | cancelJob hcancel =>
      obtain rfl := Batch.cancelJob_some hcancel
      exact ⟨hb.total, hb.completed, hb.success, hb.failed, hb.cancelled⟩
  | cancelItems now => exact hb.cancelItems now

/-! ## Jobs and their items -/

/-- Items run under a job that runs or that was cancelled meanwhile; a job
that ended by itself has nothing left. -/
structure Batch.InStep (b : Batch) : Prop where
  notWaiting : b.jobStatus ≠ .waitingApproval
  running : ∀ item ∈ b.items, item.status = .running →
    b.jobStatus = .running ∨ b.jobStatus = .cancelled
  ended : b.jobStatus = .completed ∨ b.jobStatus = .failed →
    (∀ item ∈ b.items, item.active = false) ∧ b.finishedAt.isSome

/-- A job whose cancel route has come to its end has no queued item, and its
batch is finished once nothing runs any more. -/
def Batch.Settled (b : Batch) : Prop :=
  b.jobStatus = .cancelled → (∀ item ∈ b.items, item.status ≠ .queued) ∧
    ((∀ item ∈ b.items, item.status ≠ .running) → b.finishedAt.isSome)

theorem Item.not_active_iff {item : Item} :
    item.active = false ↔ item.status ≠ .queued ∧ item.status ≠ .running := by
  unfold Item.active
  cases item.status <;> simp

theorem Batch.claim_jobStatus {b : Batch} {ordinal : Nat} (h : b.claimable ordinal = true) :
    (b.claim ordinal).jobStatus = .running := by
  simp only [Batch.claimable, Batch.active, Bool.and_eq_true, Bool.or_eq_true,
    beq_iff_eq] at h
  show (if b.jobStatus = .queued then .running else b.jobStatus) = _
  rcases h.1 with hq | hr
  · rw [if_pos hq]
  · rw [hr]
    rfl

theorem Batch.InStep.finish {b : Batch} (h : b.InStep) (ordinal now : Nat)
    (outcome : Outcome) (error : Option String) :
    (b.finish ordinal outcome error now).1.InStep := by
  rcases b.finish_cases ordinal now outcome error with
    ⟨hnone, -, hwaiting, hfinished⟩ | ⟨⟨item, hitem, hactive⟩, hjob⟩
  · refine ⟨hwaiting, fun item hitem hr => ?_, fun _ => ⟨hnone, by rw [hfinished]; rfl⟩⟩
    exact absurd hr (Item.not_active_iff.mp (hnone item hitem)).2
  · have hold := fun item => exists_of_forall₂ (y := item)
      (b.finish_items ordinal now outcome error)
    refine ⟨hjob ▸ h.notWaiting, fun item hitem hr => ?_, fun hended => ?_⟩
    · obtain ⟨old, hmem, hcloses⟩ := hold item hitem
      rw [hjob]
      exact h.running old hmem (hcloses.running hr)
    · -- A job that had ended had no active item to begin with.
      obtain ⟨old, hmem, hcloses⟩ := hold item hitem
      rw [hjob] at hended
      have := hcloses.follows.2 hactive
      rw [(h.ended hended).1 old hmem] at this
      cases this

theorem Batch.InStep.cancelItems {b : Batch} (h : b.InStep) (now : Nat) :
    (b.cancelItems now).InStep := by
  refine ⟨b.cancelItems_jobStatus now ▸ h.notWaiting, fun item hitem hr => ?_,
    fun hended => ?_⟩
  · rw [Batch.cancelItems_items] at hitem
    obtain ⟨old, hmem, hcloses⟩ := exists_of_forall₂ b.cancelQueued_items hitem
    rw [Batch.cancelItems_jobStatus]
    exact h.running old hmem (hcloses.running hr)
  · rw [Batch.cancelItems_jobStatus] at hended
    refine ⟨fun item hitem => ?_, ?_⟩
    · rw [Batch.cancelItems_items] at hitem
      obtain ⟨old, hmem, hcloses⟩ := exists_of_forall₂ b.cancelQueued_items hitem
      have hold := (h.ended hended).1 old hmem
      exact Bool.eq_false_iff.mpr fun hactive => by
        rw [hcloses.follows.2 hactive] at hold
        cases hold
    · simp only [Batch.cancelItems]
      split
      · rfl
      · exact (h.ended hended).2

/-- Recovery of a job that runs, and of any other. -/
theorem Batch.recover_cases (b : Batch) :
    (b.jobStatus = .running ∧ b.recover.jobStatus = .queued ∧
      ∀ item ∈ b.recover.items, item.status ≠ .running) ∨
    (b.jobStatus ≠ .running ∧ b.recover.jobStatus = b.jobStatus ∧
      b.recover.items = b.items ∧ b.recover.finishedAt = b.finishedAt) := by
  unfold Batch.recover
  split
  · next hr =>
      refine .inl ⟨hr, rfl, fun item hitem => ?_⟩
      obtain ⟨old, -, rfl⟩ := List.mem_map.mp hitem
      split
      · exact fun h => nomatch h
      · assumption
  · next hr =>
      refine .inr ⟨hr, ?_⟩
      dsimp only
      split <;> exact ⟨rfl, rfl, rfl⟩

theorem Batch.InStep.recover {b : Batch} (h : b.InStep) : b.recover.InStep := by
  rcases b.recover_cases with ⟨-, hjob, hnone⟩ | ⟨-, hjob, hitems, hfinished⟩
  · refine ⟨by rw [hjob]; decide,
      fun item hitem hr => absurd hr (hnone item hitem), ?_⟩
    rw [hjob]
    rintro (h | h) <;> cases h
  · refine ⟨hjob ▸ h.notWaiting, ?_, ?_⟩
    · rw [hitems, hjob]
      exact h.running
    · rw [hitems, hjob, hfinished]
      exact h.ended

theorem inStep {C : State → Action → Prop} {s : State} (h : Reach step C Initial s)
    {b : Batch} (hb : b ∈ s.db) : b.InStep := by
  obtain ⟨i, hi⟩ := List.mem_iff_getElem?.mp hb
  refine batches_invariant (I := fun _ b => b.InStep) ?_ ?_ (fun _ _ _ _ _ hb => hb.recover)
    h hi
  · intro p input uuid
    refine ⟨(fun h => nomatch h), fun item hitem hr => ?_, fun h => ?_⟩
    · rw [newBatch_status hitem] at hr
      cases hr
    · rcases h with h | h <;> cases h
  · intro p b p' b' hb hstep
    cases hstep with
    | claim hclaim =>
        have hjob := Batch.claim_jobStatus hclaim
        refine ⟨by rw [hjob]; decide, fun _ _ _ => .inl hjob, fun h => ?_⟩
        rw [hjob] at h
        rcases h with h | h <;> cases h
    | finish => exact hb.finish ..
    | cancelJob hcancel =>
        obtain rfl := Batch.cancelJob_some hcancel
        exact ⟨(fun h => nomatch h), fun _ _ _ => .inr rfl,
          fun h => by rcases h with h | h <;> cases h⟩
    | cancelItems now => exact hb.cancelItems now

/-! ## Cancelled batches -/

/-- A restart that no cancelled batch is in the middle of: no cancel request
between its two transactions, no item of a cancelled batch being worked on. -/
def CleanCrash (s : State) : Action → Prop
  | .restart => s.cancels = [] ∧ ∀ b ∈ s.db, b.jobStatus = .cancelled →
      ∀ item ∈ b.items, item.status ≠ .running
  | _ => True

theorem Batch.settled_finish (b : Batch) (ordinal now : Nat) (outcome : Outcome)
    (error : Option String) : (b.finish ordinal outcome error now).1.Settled := by
  intro hjob
  rcases b.finish_cases ordinal now outcome error with
    ⟨hnone, -, -, hfinished⟩ | ⟨⟨item, hitem, hactive⟩, hjob'⟩
  · refine ⟨fun item hitem => (Item.not_active_iff.mp (hnone item hitem)).1, fun _ => ?_⟩
    rw [hfinished]
    rfl
  · have hqueued : ∀ item ∈ (b.finish ordinal outcome error now).1.items, item.status ≠ .queued :=
      fun _ => b.finish_not_queued ordinal now outcome error (hjob'.symm.trans hjob)
    refine ⟨hqueued, fun hrunning => ?_⟩
    rw [Item.not_active_iff.mpr ⟨hqueued item hitem, hrunning item hitem⟩] at hactive
    cases hactive

theorem Batch.settled_cancelItems (b : Batch) (now : Nat) : (b.cancelItems now).Settled := by
  intro _
  refine ⟨fun item hitem => ?_, fun hrunning => ?_⟩
  · rw [Batch.cancelItems_items] at hitem
    exact b.cancelQueued_not_queued hitem
  · rw [Batch.cancelItems_items] at hrunning
    simp only [Batch.cancelItems]
    rw [if_pos]
    · rfl
    · exact List.countP_eq_zero.mpr fun item hitem => by simpa using hrunning item hitem

theorem settled {s : State} (h : Reach step CleanCrash Initial s) {i : Nat} {b : Batch}
    (hi : s.db[i]? = some b) (hno : i ∉ s.cancels) : b.Settled := by
  refine batches_invariant (I := fun p b => ¬ p → b.Settled) ?_ ?_ ?_ h hi hno
  · intro p input uuid _ hjob
    cases hjob
  · intro p b p' b' hb hstep hp'
    cases hstep with
    | claim hclaim =>
        intro hjob
        rw [Batch.claim_jobStatus hclaim] at hjob
        cases hjob
    | finish ordinal outcome error now => exact b.settled_finish ordinal now outcome error
    | cancelJob hcancel hp => exact absurd hp hp'
    | cancelItems now => exact b.settled_cancelItems now
  · intro s i b hc hi hb _ hjob
    have hb := hb (by rw [hc.1]; exact List.not_mem_nil)
    rcases b.recover_cases with ⟨-, hjob', -⟩ | ⟨-, hjob', hitems, hfinished⟩
    · rw [hjob'] at hjob
      cases hjob
    · rw [hjob'] at hjob
      rw [hitems, hfinished]
      exact hb hjob

/-- A job that is over. -/
def Batch.Over (b : Batch) : Prop :=
  b.jobStatus = .completed ∨ b.jobStatus = .failed ∨ b.jobStatus = .cancelled

instance (b : Batch) : Decidable b.Over := inferInstanceAs (Decidable (_ ∨ _))

/-- What recovery is for. -/
structure Batch.Recovered (b : Batch) : Prop where
  idle : ∀ item ∈ b.items, item.status ≠ .running
  ended : b.Over → (∀ item ∈ b.items, item.active = false) ∧ b.finishedAt.isSome

theorem Batch.recovered {b : Batch} (hstep : b.InStep) (hsettled : b.Settled)
    (hclean : b.jobStatus = .cancelled → ∀ item ∈ b.items, item.status ≠ .running) :
    b.recover.Recovered := by
  rcases b.recover_cases with ⟨-, hjob, hnone⟩ | ⟨hnot, hjob, hitems, hfinished⟩
  · refine ⟨hnone, fun hover => ?_⟩
    rw [Batch.Over, hjob] at hover
    rcases hover with h | h | h <;> cases h
  · have hidle : ∀ item ∈ b.items, item.status ≠ .running := fun item hitem hr =>
      (hstep.running item hitem hr).elim hnot fun hc => hclean hc item hitem hr
    refine ⟨hitems ▸ hidle, ?_⟩
    rw [Batch.Over, hitems, hjob, hfinished]
    rintro (hc | hf | hc)
    · exact hstep.ended (.inl hc)
    · exact hstep.ended (.inr hf)
    · obtain ⟨hqueued, hdone⟩ := hsettled hc
      exact ⟨fun item hitem => Item.not_active_iff.mpr ⟨hqueued item hitem, hidle item hitem⟩,
        hdone hidle⟩

/-- The counters are exact in every state of every run, and where no restart
comes in the middle of a cancelled batch, every restart leaves the batches
recovered. -/
theorem batches_recovered (s : State) :
    (Reach step anyStep Initial s → ∀ b ∈ s.db, b.Counted ∧
      b.completedCount = b.successCount + b.failedCount + b.cancelledCount ∧
      b.completedCount ≤ b.totalCount) ∧
    ∀ s', Reach step CleanCrash Initial s → CleanCrash s .restart →
      step s .restart = some s' → ∀ b ∈ s'.db, b.Recovered := by
  refine ⟨fun h b hb => ⟨counted h hb, (counted h hb).sum⟩, ?_⟩
  intro s' h hclean hstep b hb
  cases hstep
  obtain ⟨c, hc, rfl⟩ := List.mem_map.mp hb
  obtain ⟨i, hi⟩ := List.mem_iff_getElem?.mp hc
  refine Batch.recovered (inStep h hc) (settled h hi ?_) (hclean.2 c hc)
  rw [hclean.1]
  exact List.not_mem_nil

/-! ## A run with a restart -/

/-- A batch that moves one file to the trash. -/
def trashOne (sourcePath : String) : BatchInput where
  rootId := "root"
  storagePoolId := "pool"
  operation := .trash
  targetDirectory := none
  items := [⟨sourcePath, none, none⟩]

def emptyState : State := ⟨[], []⟩

/-- The process stops while it works on the item. -/
def interrupted : List Action := [.create (trashOne "a") (fun _ => "id"), .claim 0 0]

/-- The same, after the batch was cancelled. -/
def interruptedCancelled : List Action :=
  interrupted ++ [.cancelJob 0, .cancelItems 0 1]

theorem batch_jobs_in_step (s : {s // Reach step anyStep Initial s}) (b : {b // b ∈ s.1.db}) :
    b.1.InStep :=
  inStep s.2 b.2

theorem batch_jobs_in_step_cancelled : ∃ s, run step emptyState interruptedCancelled = some s ∧
    ∃ b ∈ s.db, b.jobStatus = .cancelled ∧ b.InStep := by
  obtain ⟨s, hrun, hs⟩ := exists_run step emptyState interruptedCancelled
    (fun s => decide (∃ b ∈ s.db, b.jobStatus = .cancelled)) (by decide)
  obtain ⟨b, hb, hcancelled⟩ := of_decide_eq_true hs
  have hreach : Reach step anyStep Initial s :=
    .of_run (.init ⟨rfl, rfl⟩) (fun _ _ _ => trivial) hrun
  exact ⟨s, hrun, b, hb, hcancelled, batch_jobs_in_step ⟨s, hreach⟩ ⟨b, hb⟩⟩

theorem batches_recovered_interrupted :
    ∃ s s', run step emptyState interrupted = some s ∧ step s .restart = some s' ∧
      s'.db ≠ [] ∧ ∀ b ∈ s'.db, b.Counted ∧ b.Recovered := by
  obtain ⟨s, hrun, hs⟩ := exists_run step emptyState interrupted
    (fun s => decide (s.cancels = [] ∧ ∀ b ∈ s.db, b.jobStatus = .running)) (by decide)
  obtain ⟨hcancels, hjobs⟩ := of_decide_eq_true hs
  have hreach : ∀ C : State → Action → Prop, (∀ a ∈ interrupted, ∀ s, C s a) →
      Reach step C Initial s := fun C hC => .of_run (.init ⟨rfl, rfl⟩) hC hrun
  have hclean : CleanCrash s .restart := ⟨hcancels, fun b hb hc => by
    rw [hjobs b hb] at hc
    cases hc⟩
  have hplain : ∀ a ∈ interrupted, ∀ s, CleanCrash s a := by
    intro a ha s
    simp only [interrupted, List.mem_cons, List.not_mem_nil, or_false] at ha
    rcases ha with rfl | rfl <;> trivial
  refine ⟨s, ⟨recoverInterruptedFileBatches s.db, []⟩, hrun, rfl, ?_, fun b hb => ⟨?_, ?_⟩⟩
  · intro hnil
    have hlen := congrArg (Option.map fun s => s.db.length) hrun
    rw [Option.map_some, List.map_eq_nil_iff.mp hnil] at hlen
    exact absurd hlen (by decide)
  · have hnext : Reach step anyStep Initial ⟨recoverInterruptedFileBatches s.db, []⟩ :=
      .step (a := .restart) (hreach anyStep fun _ _ _ => trivial) trivial rfl
    exact ((batches_recovered _).1 hnext b hb).1
  · exact (batches_recovered s).2 _ (hreach CleanCrash hplain) hclean rfl b hb

/-- An item of a cancelled batch that was being worked on stays `running`, and
its batch is never finished. -/
theorem cancelled_item_left_running :
    ∃ s s', Reach step anyStep Initial s ∧ step s .restart = some s' ∧
      ∃ b ∈ s'.db, b.jobStatus = .cancelled ∧ b.finishedAt = none ∧
        ∃ item ∈ b.items, item.status = .running := by
  obtain ⟨s, hrun, hs⟩ := exists_run step emptyState interruptedCancelled
    (fun s => decide (∃ b ∈ (recoverInterruptedFileBatches s.db), b.jobStatus = .cancelled ∧
      b.finishedAt = none ∧ ∃ item ∈ b.items, item.status = .running)) (by decide)
  exact ⟨s, _, .of_run (.init ⟨rfl, rfl⟩) (fun _ _ _ => trivial) hrun, rfl,
    of_decide_eq_true hs⟩

end Zos.Batches
