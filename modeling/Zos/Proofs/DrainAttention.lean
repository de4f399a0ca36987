import Zos.Batches.Drain

/-!
# Batches that nothing attends to

A wake that comes after the drain has found nothing to claim, and before the handler of `finally`
has run, is dropped, and so is one that comes while a drain is ending by an error. Nothing else
wakes the runner. So a step keeps every batch attended exactly if it is allowed: it submits nothing
in that window, and if it ends the drain by an error nothing is left to claim.

`Quiet` is what an allowed run keeps: a runner without a drain, or with one that is closing, has
nothing to claim.
-/

namespace Zos.Batches.Drain

/-! ## Items that can be claimed -/

theorem claimable_eq_false_iff {db : Db} : claimable db = false ↔
    ∀ batch ordinal, claimNextFileBatchItem db batch ordinal = none := by
  simp only [claimNextFileBatchItem, ite_eq_right_iff, reduceCtorEq, imp_false, Option.any_eq_true,
    not_exists, not_and]
  rw [claimable, List.any_eq_false]
  constructor
  · intro h batch ordinal b hb hclaim
    simp only [Batch.claimable, Bool.and_eq_true, Option.any_eq_true] at hclaim
    obtain ⟨hactive, item, hitem, hqueued⟩ := hclaim
    refine h b (List.mem_of_getElem? hb) ?_
    rw [Bool.and_eq_true, List.any_eq_true]
    exact ⟨hactive, item, List.mem_of_getElem? hitem, hqueued⟩
  · intro h b hb hclaim
    rw [Bool.and_eq_true, List.any_eq_true] at hclaim
    obtain ⟨hactive, item, hitem, hqueued⟩ := hclaim
    obtain ⟨batch, hbatch⟩ := List.mem_iff_getElem?.mp hb
    obtain ⟨ordinal, hordinal⟩ := List.mem_iff_getElem?.mp hitem
    refine h batch ordinal b hbatch ?_
    simp only [Batch.claimable, Bool.and_eq_true, Option.any_eq_true]
    exact ⟨hactive, item, hordinal, hqueued⟩

/-- A new batch has items, and they are queued. -/
theorem claimable_createFileBatch {db db' : Db} {input : BatchInput} {uuid : Nat → String}
    (h : createFileBatch db input uuid = .ok db') : claimable db' = true := by
  unfold createFileBatch at h
  split at h
  · cases h
  · next hitems =>
      split at h
      · cases h
      · split at h
        · cases h
        · cases h
          rw [claimable, List.any_append, Bool.or_eq_true]
          refine .inr ?_
          cases hinput : input.items with
          | nil => simp [hinput] at hitems
          | cons item rest => simp [newBatch, hinput, newItem, Batch.active]

theorem claimable_modify {db : Db} {batch : Nat} {f : Batch → Batch} (h : claimable db = false)
    (hf : ∀ b, (f b).active = true → (f b).items.any (·.status == .queued) = true →
      b.active = true ∧ b.items.any (·.status == .queued) = true) :
    claimable (db.modify batch f) = false := by
  rw [claimable, List.any_eq_false] at h ⊢
  intro b hb hclaim
  rw [Bool.and_eq_true] at hclaim
  obtain ⟨i, hi⟩ := List.mem_iff_getElem?.mp hb
  rw [List.getElem?_modify] at hi
  obtain ⟨old, hold, rfl⟩ := Option.map_eq_some_iff.mp hi
  refine h old (List.mem_of_getElem? hold) ?_
  rw [Bool.and_eq_true]
  split at hclaim
  · exact hf old hclaim.1 hclaim.2
  · exact hclaim

theorem claimable_cancelItems {db : Db} {batch now : Nat} (h : claimable db = false) :
    claimable (cancelQueuedFileBatchItems db batch now) = false := by
  refine claimable_modify h fun b hactive hqueued => ?_
  have hitems : (b.cancelItems now).items = b.cancelQueued.items := by
    simp only [Batch.cancelItems]
    split <;> rfl
  rw [hitems, List.any_eq_true] at hqueued
  obtain ⟨item, hitem, hstatus⟩ := hqueued
  obtain ⟨old, -, rfl⟩ := List.mem_map.mp hitem
  split at hstatus
  · simp at hstatus
  · next hne => exact absurd (by simpa using hstatus) hne

theorem claimable_cancelJob {db : Db} {batch : Nat} {b b' : Batch} (h : claimable db = false)
    (hcancel : b.cancelJob = some b') : claimable (db.set batch b') = false := by
  have hactive : b'.active = false := by
    unfold Batch.cancelJob at hcancel
    split at hcancel
    · cases hcancel
      rfl
    · cases hcancel
  rw [claimable, List.any_eq_false] at h ⊢
  intro other hother
  rcases List.mem_or_eq_of_mem_set hother with hother | rfl
  · exact h other hother
  · simp [hactive]

/-! ## Steps -/

def Quiet (s : State) : Prop :=
  s.stopped = false → s.pc = .idle ∨ s.pc.closing = true → claimable s.db = false

theorem attended_settle {s : State} : Attended (settle s) ↔ Quiet s := by
  unfold Attended settle Quiet
  cases hpc : s.pc <;> simp [Pc.closing, claimable_eq_false_iff, hpc]

theorem turn_quiet {s s' : State} {answer : Answer} (hstarted : s.stopped = false)
    (h : turn s answer = some s') : Quiet s' ↔ Drains s.db answer := by
  simp only [turn, hstarted, Bool.false_eq_true, if_false] at h
  cases answer with
  | item batch ordinal started =>
      obtain ⟨db, hclaim, rfl⟩ := Option.map_eq_some_iff.mp h
      cases started with
      | true => simp [Quiet, Drains, Pc.closing]
      | false =>
          have hdb : db = s.db.modify batch (·.claim ordinal) := by
            unfold claimNextFileBatchItem at hclaim
            split at hclaim <;> cases hclaim
            rfl
          simp [Quiet, Drains, Pc.closing, hdb]
  | nothing =>
      simp only at h
      split at h <;> cases h
      next hclaim => simp [Quiet, Drains, hclaim]
  | error =>
      cases h
      simp [Quiet, Drains, Pc.closing]

theorem wake_quiet {s s' : State} {answer : Answer} (hstarted : s.stopped = false)
    (h : wake s answer = some s') : Quiet s' ↔
      (s.pc.closing = true → claimable s.db = false) ∧ (s.pc = .idle → Drains s.db answer) := by
  unfold wake at h
  by_cases hidle : s.pc = .idle
  · simp only [hstarted, hidle, ne_eq, not_true, Bool.false_eq_true, or_self, if_false] at h
    rw [turn_quiet hstarted h]
    simp [hidle, Pc.closing]
  · simp only [hidle, ne_eq, not_false_eq_true, or_true, if_true] at h
    cases h
    simp [Quiet, hstarted, hidle]

theorem quiet_of_stopped {s : State} (h : s.stopped = true) : Quiet s :=
  fun hstarted => Bool.noConfusion (h.symm.trans hstarted)

theorem quiet_step_iff {s s' : State} {action : Action} (hs : Quiet s)
    (h : step s action = some s') : Quiet s' ↔ Allowed s action := by
  cases action with
  | start answer =>
      simp only [step] at h
      split at h
      · exact wake_quiet rfl h
      · cases h
  | stop =>
      cases h
      exact iff_of_true (quiet_of_stopped rfl) trivial
  | submit input uuid answer =>
      simp only [step] at h
      split at h
      · next db hcreate =>
          cases hstopped : s.stopped with
          | true =>
              have hs' : s' = { s with db := db } := by
                simpa [wake, hstopped] using h.symm
              refine iff_of_true (quiet_of_stopped ?_) ?_
              · rw [hs']
                exact hstopped
              · simp [Allowed, hstopped]
          | false =>
              rw [wake_quiet (s := { s with db := db }) hstopped h]
              simp [Allowed, hstopped, hcreate, claimable_createFileBatch hcreate]
      · cases h
  | finish outcome error now =>
      simp only [step] at h
      split at h
      · obtain ⟨db, -, rfl⟩ := Option.map_eq_some_iff.mp h
        simp [Quiet, Allowed, Pc.closing]
      · cases h
  | finishThrows =>
      simp only [step] at h
      split at h <;> cases h
      simp [Quiet, Allowed, Pc.closing]
  | callback emitted answer =>
      simp only [step] at h
      split at h
      · next final hpc =>
          cases hstopped : s.stopped with
          | true =>
              refine iff_of_true (quiet_of_stopped ?_) (by simp [Allowed, hstopped])
              split at h
              · cases h
                exact hstopped
              · unfold turn at h
                rw [if_pos hstopped] at h
                cases h
                exact hstopped
          | false =>
              simp only [Allowed, hpc, Pc.processed.injEq, forall_eq', hstopped, true_implies]
              split at h
              · next hlast =>
                  cases h
                  simp [Quiet, Pc.closing, hstopped, hlast]
              · next hlast =>
                  rw [if_neg hlast]
                  exact turn_quiet hstopped h
      · next hpc =>
          cases h
          simp_all [Quiet, Allowed, Pc.closing]
      · next hpc =>
          cases h
          simp_all [Quiet, Allowed, Pc.closing]
      · next hpc =>
          cases h
          simp_all [Quiet, Allowed, Pc.closing]
      · cases h
      · cases h
  | cancelJob batch =>
      simp only [step, Option.bind_eq_bind, Option.bind_eq_some_iff] at h
      obtain ⟨b, -, b', hcancel, h⟩ := h
      cases h
      exact iff_of_true (fun hstarted hpc => claimable_cancelJob (hs hstarted hpc) hcancel) trivial
  | cancelItems batch now =>
      cases h
      exact iff_of_true (fun hstarted hpc => claimable_cancelItems (hs hstarted hpc)) trivial

theorem quiet_of_reach {s : State} (h : Zos.Lib.Reach step Allowed Initial s) : Quiet s :=
  h.invariant (fun _ hinit => quiet_of_stopped hinit.1)
    fun _ _ _ hs hallowed hstep => (quiet_step_iff hs hstep).mpr hallowed

theorem attended_iff (t : Taken) : Attended (settle t.next) ↔ Allowed t.state t.action := by
  rw [attended_settle]
  exact quiet_step_iff (quiet_of_reach t.reached) t.taken

def oneFile : BatchInput := ⟨"dev", "pool", .trash, none, [⟨"a.txt", none, none⟩]⟩

def oneQueued : State := ⟨(createFileBatch [] oneFile fun _ => "id").toOption.getD [], true, .idle⟩

/-- The drain takes the one item and then finds nothing. -/
theorem attended_when_emptied : ∃ t : Taken, t.next.pc = .nothing ∧ Attended (settle t.next) := by
  have hstart : Allowed oneQueued (.start (.item 0 0 true)) := ⟨nofun, fun _ => trivial⟩
  refine ⟨⟨_, .step (.step (.init ⟨rfl, rfl⟩) hstart rfl) (a := .finish .completed none 0) trivial
    rfl, .callback true .nothing, _, rfl⟩, rfl, (attended_iff _).mpr ?_⟩
  intro final hpc hstarted
  cases final <;> exact trivial

/-! ## A submission while the drain is closing -/

/-- The runner starts on an empty table; a batch is submitted before the two callbacks have run. -/
def droppedWake : List Action :=
  [.start .nothing, .submit oneFile (fun _ => "id") .nothing, .callback true .nothing,
    .callback true .nothing]

theorem dropped_wake_leaves_batch :
    ∃ s, Zos.Lib.Reach step Zos.Lib.anyStep Initial s ∧ ¬ Attended s := by
  obtain ⟨s, hrun, hs⟩ := Zos.Lib.exists_run step ⟨[], true, .idle⟩ droppedWake
    (fun s => !s.stopped && s.pc == .idle && claimable s.db) (by decide)
  simp only [Bool.and_eq_true, Bool.not_eq_true', beq_iff_eq] at hs
  obtain ⟨⟨hstarted, hidle⟩, hclaimable⟩ := hs
  refine ⟨s, .of_run (.init ⟨rfl, rfl⟩) (fun _ _ _ => trivial) hrun, fun hattended => ?_⟩
  have hnone := claimable_eq_false_iff.mpr (hattended hstarted hidle)
  exact Bool.noConfusion (hclaimable.symm.trans hnone)

end Zos.Batches.Drain
