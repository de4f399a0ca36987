import Zos.Batches.Machine
import Zos.Lib.Fallible
import Zos.Lib.Rows

/-!
# What a step does to the batches

Whatever the action, a step appends a batch, changes one batch by one of four
transactions, or is a restart. The invariants of the batches are proved from
this, transaction by transaction.
-/

namespace Zos.Batches

open Zos.Lib

/-- The batch an action asks for, if it asks for one. -/
def Action.input : Action → Option BatchInput
  | .create input _ => some input
  | .submit request answers _ => (batchInput request answers).toOption
  | _ => none

/-- The transactions on one batch. The two propositions say whether a cancel
request of this batch stands between its two transactions, before and after. -/
inductive BatchStep : Prop → Batch → Prop → Batch → Prop where
  | claim {p : Prop} {b : Batch} {ordinal : Nat} (h : b.claimable ordinal = true) :
      BatchStep p b p (b.claim ordinal)
  | finish {p : Prop} {b : Batch} (ordinal : Nat) (outcome : Outcome)
      (error : Option String) (now : Nat) :
      BatchStep p b p (b.finish ordinal outcome error now).1
  | cancelJob {p p' : Prop} {b b' : Batch} (h : b.cancelJob = some b') (hp : p') :
      BatchStep p b p' b'
  | cancelItems {p p' : Prop} {b : Batch} (now : Nat) (hp : p) :
      BatchStep p b p' (b.cancelItems now)

inductive Transition (s : State) (a : Action) : State → Prop where
  | created {input : BatchInput} {uuid : Nat → String} (ha : a.input = some input)
      (hdup : duplicatePaths s.db input = [])
      (hnodup : (input.items.map (·.sourcePath)).Nodup) :
      Transition s a { s with db := s.db ++ [newBatch input uuid] }
  | updated {i : Nat} {b b' : Batch} {cancels : List Nat} (hb : s.db[i]? = some b)
      (hstep : BatchStep (i ∈ s.cancels) b (i ∈ cancels) b')
      (hcancels : ∀ j, j ≠ i → (j ∈ cancels ↔ j ∈ s.cancels)) :
      Transition s a ⟨s.db.set i b', cancels⟩
  /-- The cancel request of a batch that is not there. -/
  | skipped {i : Nat} {cancels : List Nat} (hi : s.db[i]? = none)
      (hcancels : ∀ j, j ≠ i → (j ∈ cancels ↔ j ∈ s.cancels)) :
      Transition s a ⟨s.db, cancels⟩
  | restarted (ha : a = .restart) :
      Transition s a ⟨recoverInterruptedFileBatches s.db, []⟩

section

variable {db db' : Db} {batch ordinal : Nat}

theorem createFileBatch_ok {input : BatchInput} {uuid : Nat → String}
    (h : createFileBatch db input uuid = .ok db') :
    duplicatePaths db input = [] ∧ (input.items.map (·.sourcePath)).Nodup ∧
      db' = db ++ [newBatch input uuid] := by
  unfold createFileBatch at h
  split at h
  · cases h
  · split at h
    · cases h
    · next hdup =>
        split at h
        · cases h
        · next hnodup =>
            cases h
            exact ⟨by simpa using hdup, not_not.mp hnodup, rfl⟩

theorem submitBatch_ok {request : BatchRequest} {answers : Answers} {uuid : Nat → String}
    (h : submitBatch db request answers uuid = .ok db') :
    ∃ input, batchInput request answers = .ok input ∧
      createFileBatch db input uuid = .ok db' := by
  obtain ⟨input, hin, h⟩ := bind_ok_iff.mp h
  exact ⟨input, hin, mapError_ok_iff.mp h⟩

/-- An update of a batch that is there. -/
theorem modify_eq_set {b : Batch} {f : Batch → Batch} (hb : db[batch]? = some b) :
    db.modify batch f = db.set batch (f b) := by
  rw [List.modify_eq_set_getElem?, hb]
  rfl

theorem claimNextFileBatchItem_some (h : claimNextFileBatchItem db batch ordinal = some db') :
    ∃ b, db[batch]? = some b ∧ b.claimable ordinal = true ∧
      db' = db.set batch (b.claim ordinal) := by
  unfold claimNextFileBatchItem at h
  split at h
  · next hany =>
      obtain ⟨b, hb, hc⟩ := (Option.any_eq_true _ _).mp hany
      cases h
      exact ⟨b, hb, hc, modify_eq_set hb⟩
  · cases h

theorem finishFileBatchItem_some {outcome : Outcome} {error : Option String} {now : Nat}
    (h : finishFileBatchItem db batch ordinal outcome error now = some db') :
    ∃ b, db[batch]? = some b ∧
      db' = db.set batch (b.finish ordinal outcome error now).1 := by
  unfold finishFileBatchItem at h
  split at h
  · next hany =>
      obtain ⟨b, hb, -⟩ := (Option.any_eq_true _ _).mp hany
      cases h
      exact ⟨b, hb, modify_eq_set hb⟩
  · cases h

end

theorem step_transition {s s' : State} {a : Action} (h : step s a = some s') :
    Transition s a s' := by
  cases a with
  | create input uuid =>
      obtain ⟨db, hdb, rfl⟩ := Option.map_eq_some_iff.mp h
      obtain ⟨hdup, hnodup, rfl⟩ := createFileBatch_ok (toOption_eq_some_iff.mp hdb)
      exact .created rfl hdup hnodup
  | submit request answers uuid =>
      obtain ⟨db, hdb, rfl⟩ := Option.map_eq_some_iff.mp h
      obtain ⟨input, hin, hc⟩ := submitBatch_ok (toOption_eq_some_iff.mp hdb)
      obtain ⟨hdup, hnodup, rfl⟩ := createFileBatch_ok hc
      exact .created (by rw [Action.input, hin]; rfl) hdup hnodup
  | claim batch ordinal =>
      obtain ⟨db, hdb, rfl⟩ := Option.map_eq_some_iff.mp h
      obtain ⟨b, hb, hc, rfl⟩ := claimNextFileBatchItem_some hdb
      exact .updated hb (.claim hc) fun _ _ => .rfl
  | finish batch ordinal outcome error now =>
      obtain ⟨db, hdb, rfl⟩ := Option.map_eq_some_iff.mp h
      obtain ⟨b, hb, rfl⟩ := finishFileBatchItem_some hdb
      exact .updated hb (.finish ..) fun _ _ => .rfl
  | cancelJob batch =>
      obtain ⟨b, hb, h⟩ := Option.bind_eq_some_iff.mp h
      obtain ⟨b', hb', h⟩ := Option.bind_eq_some_iff.mp h
      cases h
      exact .updated hb (.cancelJob hb' List.mem_cons_self) fun j hj => by simp [hj]
  | cancelItems batch now =>
      simp only [step] at h
      split at h
      · next hmem =>
          cases h
          have hcancels : ∀ j, j ≠ batch → (j ∈ s.cancels.erase batch ↔ j ∈ s.cancels) :=
            fun j hj => List.mem_erase_of_ne hj
          cases hb : s.db[batch]? with
          | none =>
              rw [cancelQueuedFileBatchItems, List.modify_eq_set_getElem?, hb]
              exact .skipped hb hcancels
          | some b =>
              rw [cancelQueuedFileBatchItems, modify_eq_set hb]
              exact .updated hb (.cancelItems now hmem) hcancels
      · cases h
  | restart =>
      cases h
      exact .restarted rfl

/-! ## What becomes of the items -/

/-- The item keeps its path, and does not become active again. -/
def Item.Follows (item item' : Item) : Prop :=
  item'.sourcePath = item.sourcePath ∧ (item'.active = true → item.active = true)

/-- The item stays as it is, or it was active and is finished. -/
def Item.Closes (item item' : Item) : Prop :=
  item' = item ∨
    item'.sourcePath = item.sourcePath ∧ item.active = true ∧ item'.active = false

theorem Item.Closes.trans (i j k : Item) (h₁ : i.Closes j) (h₂ : j.Closes k) :
    i.Closes k := by
  rcases h₁ with rfl | ⟨hpath, hi, hj⟩
  · exact h₂
  · rcases h₂ with rfl | ⟨-, hj', -⟩
    · exact .inr ⟨hpath, hi, hj⟩
    · rw [hj] at hj'
      cases hj'

theorem Item.Closes.follows {i j : Item} (h : i.Closes j) : i.Follows j := by
  rcases h with rfl | ⟨hpath, hi, -⟩
  · exact ⟨rfl, id⟩
  · exact ⟨hpath, fun _ => hi⟩

/-- A running item was already running. -/
theorem Item.Closes.running {i j : Item} (h : i.Closes j) (hj : j.status = .running) :
    i.status = .running := by
  rcases h with rfl | ⟨-, -, hno⟩
  · exact hj
  · rw [Item.active, hj] at hno
    cases hno

section

variable (b : Batch) (ordinal now : Nat) (outcome : Outcome) (error : Option String)

theorem Batch.setOutcome_items :
    List.Forall₂ Item.Closes b.items (b.setOutcome ordinal outcome error).items := by
  refine forall₂_modify (fun _ => .inl rfl) fun item _ => ?_
  split
  · next hr =>
      refine .inr ⟨rfl, by rw [Item.active, hr]; rfl, ?_⟩
      cases outcome <;> rfl
  · exact .inl rfl

theorem Batch.cancelQueued_items :
    List.Forall₂ Item.Closes b.items b.cancelQueued.items := by
  refine forall₂_map fun item _ => ?_
  split
  · next hq => exact .inr ⟨rfl, by rw [Item.active, hq]; rfl, rfl⟩
  · exact .inl rfl

theorem Batch.cancelQueued_not_queued {item : Item} (h : item ∈ b.cancelQueued.items) :
    item.status ≠ .queued := by
  obtain ⟨old, -, rfl⟩ := List.mem_map.mp h
  split
  · exact fun hq => nomatch hq
  · assumption

/-- The batch `finishFileBatchItem` has before it asks whether it is done. -/
def Batch.marked : Batch :=
  if b.jobStatus = .cancelled then (b.setOutcome ordinal outcome error).cancelQueued
  else b.setOutcome ordinal outcome error

theorem Batch.finish_eq :
    b.finish ordinal outcome error now =
      (b.marked ordinal outcome error).refreshBatchCounts.closeIfDone now := rfl

theorem Batch.marked_items :
    List.Forall₂ Item.Closes b.items (b.marked ordinal outcome error).items := by
  unfold Batch.marked
  split
  · exact forall₂_trans Item.Closes.trans (b.setOutcome_items ordinal outcome error)
      (Batch.cancelQueued_items _)
  · exact b.setOutcome_items ordinal outcome error

@[simp] theorem Batch.marked_jobStatus :
    (b.marked ordinal outcome error).jobStatus = b.jobStatus := by
  unfold Batch.marked
  split <;> rfl

@[simp] theorem Batch.marked_totalCount :
    (b.marked ordinal outcome error).totalCount = b.totalCount := by
  unfold Batch.marked
  split <;> rfl

/-- A batch is closed exactly when none of its items is active. -/
theorem Batch.closeIfDone_cases :
    ((∀ item ∈ b.items, item.active = false) ∧
      (b.closeIfDone now).1.items = b.items ∧
      (b.closeIfDone now).1.jobStatus = b.finalStatus ∧
      (b.closeIfDone now).1.finishedAt = some now) ∨
    ((∃ item ∈ b.items, item.active = true) ∧
      (b.closeIfDone now).1.items = b.items ∧
      (b.closeIfDone now).1.jobStatus = b.jobStatus ∧
      (b.closeIfDone now).1.finishedAt = b.finishedAt) := by
  unfold Batch.closeIfDone
  split
  · next h => exact .inl ⟨by simpa using List.countP_eq_zero.mp h, rfl, rfl, rfl⟩
  · next h =>
      refine .inr ⟨?_, rfl, rfl, rfl⟩
      obtain ⟨item, hmem, hactive⟩ := List.countP_pos_iff.mp (Nat.pos_of_ne_zero h)
      exact ⟨item, hmem, hactive⟩

@[simp] theorem Batch.closeIfDone_items : (b.closeIfDone now).1.items = b.items := by
  rcases b.closeIfDone_cases now with ⟨-, h, -⟩ | ⟨-, h, -⟩ <;> exact h

theorem Batch.finish_items :
    List.Forall₂ Item.Closes b.items (b.finish ordinal outcome error now).1.items := by
  rw [Batch.finish_eq, Batch.closeIfDone_items]
  exact b.marked_items ordinal outcome error

/-- A batch that is closed keeps only whether it was cancelled. -/
theorem Batch.finalStatus_spec :
    (b.finalStatus = .cancelled ↔ b.jobStatus = .cancelled) ∧
      b.finalStatus ≠ .waitingApproval := by
  unfold Batch.finalStatus
  split
  · next h => exact ⟨⟨fun _ => h, fun _ => rfl⟩, fun hw => nomatch hw⟩
  · next h =>
      refine ⟨⟨fun hc => ?_, fun hc => absurd hc h⟩, fun hw => ?_⟩
      · split at hc <;> cases hc
      · split at hw <;> cases hw

/-- `finishFileBatchItem` closes the batch, or leaves its job as it is. -/
theorem Batch.finish_cases :
    ((∀ item ∈ (b.finish ordinal outcome error now).1.items, item.active = false) ∧
      ((b.finish ordinal outcome error now).1.jobStatus = .cancelled ↔
        b.jobStatus = .cancelled) ∧
      (b.finish ordinal outcome error now).1.jobStatus ≠ .waitingApproval ∧
      (b.finish ordinal outcome error now).1.finishedAt = some now) ∨
    ((∃ item ∈ (b.finish ordinal outcome error now).1.items, item.active = true) ∧
      (b.finish ordinal outcome error now).1.jobStatus = b.jobStatus) := by
  rw [Batch.finish_eq, Batch.closeIfDone_items]
  have hstatus : (b.marked ordinal outcome error).refreshBatchCounts.jobStatus =
      b.jobStatus := b.marked_jobStatus ordinal outcome error
  rcases Batch.closeIfDone_cases (b.marked ordinal outcome error).refreshBatchCounts now with
    ⟨hnone, -, hjob, hfinished⟩ | ⟨hsome, -, hjob, -⟩
  · rw [hjob]
    obtain ⟨hcancelled, hwaiting⟩ := Batch.finalStatus_spec
      (b.marked ordinal outcome error).refreshBatchCounts
    rw [hstatus] at hcancelled
    exact .inl ⟨hnone, hcancelled, hwaiting, hfinished⟩
  · exact .inr ⟨hsome, hjob.trans hstatus⟩

/-- A cancelled batch keeps no queued item. -/
theorem Batch.finish_not_queued (h : b.jobStatus = .cancelled) {item : Item}
    (hitem : item ∈ (b.finish ordinal outcome error now).1.items) :
    item.status ≠ .queued := by
  rw [Batch.finish_eq, Batch.closeIfDone_items] at hitem
  refine Batch.cancelQueued_not_queued (b.setOutcome ordinal outcome error) ?_
  rwa [show (b.marked ordinal outcome error).refreshBatchCounts.items =
    (b.marked ordinal outcome error).items from rfl, Batch.marked, if_pos h] at hitem

@[simp] theorem Batch.cancelItems_items :
    (b.cancelItems now).items = b.cancelQueued.items := by
  simp only [Batch.cancelItems]
  split <;> rfl

@[simp] theorem Batch.cancelItems_jobStatus : (b.cancelItems now).jobStatus = b.jobStatus := by
  simp only [Batch.cancelItems]
  split <;> rfl

theorem Batch.claim_items {ordinal : Nat} (h : b.claimable ordinal = true) :
    List.Forall₂ Item.Follows b.items (b.claim ordinal).items := by
  refine forall₂_modify (fun _ => ⟨rfl, id⟩) fun item hitem => ⟨rfl, fun _ => ?_⟩
  simp only [Batch.claimable, hitem, Option.any_some, Bool.and_eq_true, beq_iff_eq] at h
  rw [Item.active, h.2]
  rfl

/-- A recovery leaves the items, or puts the running ones back. -/
theorem Batch.recover_items_cases :
    b.recover.items = b.items ∨ b.recover.items = b.items.map fun item =>
      if item.status = .running then { item with status := .queued, error := none }
      else item := by
  unfold Batch.recover
  split
  · exact .inr rfl
  · exact .inl (by dsimp only; split <;> rfl)

theorem Batch.recover_items : List.Forall₂ Item.Follows b.items b.recover.items := by
  rcases b.recover_items_cases with h | h <;> rw [h]
  · exact List.forall₂_same.mpr fun _ _ => ⟨rfl, id⟩
  · refine forall₂_map fun item _ => ?_
    split
    · next hr => exact ⟨rfl, fun _ => by rw [Item.active, hr]; rfl⟩
    · exact ⟨rfl, id⟩

end

theorem newBatch_status {input : BatchInput} {uuid : Nat → String} {item : Item}
    (h : item ∈ (newBatch input uuid).items) : item.status = .queued := by
  obtain ⟨i, h, rfl⟩ := List.mem_mapIdx.mp h
  rfl

theorem Batch.cancelJob_some {b b' : Batch} (h : b.cancelJob = some b') :
    b' = { b with jobStatus := .cancelled, jobError := none } := by
  unfold Batch.cancelJob at h
  split at h
  · exact (Option.some.inj h).symm
  · cases h

theorem BatchStep.scope {p p' : Prop} {b b' : Batch} (h : BatchStep p b p' b') :
    b'.rootId = b.rootId ∧ b'.storagePoolId = b.storagePoolId := by
  cases h with
  | claim => exact ⟨rfl, rfl⟩
  | finish ordinal outcome error now =>
      simp only [Batch.finish_eq, Batch.closeIfDone, Batch.marked]
      split <;> split <;> exact ⟨rfl, rfl⟩
  | cancelJob h =>
      obtain rfl := Batch.cancelJob_some h
      exact ⟨rfl, rfl⟩
  | cancelItems now =>
      simp only [Batch.cancelItems]
      split <;> exact ⟨rfl, rfl⟩

theorem Batch.recover_scope (b : Batch) :
    b.recover.rootId = b.rootId ∧ b.recover.storagePoolId = b.storagePoolId := by
  unfold Batch.recover
  split
  · exact ⟨rfl, rfl⟩
  · dsimp only
    split <;> exact ⟨rfl, rfl⟩

/-- No transaction changes the path of an item or takes up one that is over. -/
theorem BatchStep.items {p p' : Prop} {b b' : Batch} (h : BatchStep p b p' b') :
    List.Forall₂ Item.Follows b.items b'.items := by
  cases h with
  | claim h => exact b.claim_items h
  | finish => exact (b.finish_items ..).imp fun _ _ => Item.Closes.follows
  | cancelJob h =>
      obtain rfl := Batch.cancelJob_some h
      exact List.forall₂_same.mpr fun _ _ => ⟨rfl, id⟩
  | cancelItems now =>
      rw [Batch.cancelItems_items]
      exact b.cancelQueued_items.imp fun _ _ => Item.Closes.follows

/-! ## Invariants of the batches -/

/-- What holds of every batch, given whether its cancel request is halfway,
holds in every state if a new batch has it and every transaction keeps it. -/
theorem batches_invariant {C : State → Action → Prop} {I : Prop → Batch → Prop}
    (hnew : ∀ p input uuid, I p (newBatch input uuid))
    (hstep : ∀ p b p' b', I p b → BatchStep p b p' b' → I p' b')
    (hrecover : ∀ s i b, C s .restart → s.db[i]? = some b → I (i ∈ s.cancels) b →
      I False b.recover)
    {s : State} (h : Reach step C Initial s) {i : Nat} {b : Batch}
    (hb : s.db[i]? = some b) : I (i ∈ s.cancels) b := by
  have hall : ∀ i b, s.db[i]? = some b → I (i ∈ s.cancels) b := by
    refine Reach.invariant (I := fun s => ∀ i b, s.db[i]? = some b → I (i ∈ s.cancels) b)
      ?_ ?_ h
    · intro s hs i b hb
      rw [hs.1] at hb
      cases hb
    · intro s a s' hs hc ha i b hb
      cases step_transition ha with
      | created hin hdup hnodup =>
          simp only [List.getElem?_append] at hb
          split at hb
          · exact hs i b hb
          · obtain rfl := List.mem_singleton.mp (List.mem_of_getElem? hb)
            exact hnew ..
      | @updated j c c' cancels hc' hbatch hcancels =>
          by_cases hij : j = i
          · subst hij
            rw [List.getElem?_set_self (List.getElem?_eq_some_iff.mp hc').1] at hb
            cases hb
            exact hstep _ _ _ _ (hs j c hc') hbatch
          · rw [List.getElem?_set_ne hij] at hb
            have := hs i b hb
            rwa [← propext (hcancels i (Ne.symm hij))] at this
      | @skipped j cancels hj hcancels =>
          have hij : i ≠ j := by
            rintro rfl
            rw [hj] at hb
            cases hb
          have := hs i b hb
          rwa [← propext (hcancels i hij)] at this
      | restarted ha' =>
          subst ha'
          simp only [recoverInterruptedFileBatches, List.getElem?_map] at hb
          obtain ⟨c, hc', rfl⟩ := Option.map_eq_some_iff.mp hb
          have := hrecover s i c hc hc' (hs i c hc')
          simpa using this
  exact hall i b hb

end Zos.Batches
