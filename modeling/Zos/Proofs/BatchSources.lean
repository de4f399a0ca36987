import Zos.Proofs.BatchRecovery

/-!
# Active items and their sources

A new batch is refused when one of its files stands in a batch whose job is
queued or running. The check reads the status of the job and not that of the
item, and the two part ways when a batch is cancelled: an item that is being
worked on keeps running under a cancelled job, and its file can be submitted
again. It is also blind to an empty path, which the route never asks for but
`createFileBatch` accepts.
-/

namespace Zos.Batches

open Zos.Lib

/-- The sources of the active items of a batch, one entry for each item. -/
def Batch.activeSources (b : Batch) : List (String × String × String) :=
  ((b.items.filter (·.active)).map (·.sourcePath)).map fun sourcePath =>
    (b.rootId, b.storagePoolId, sourcePath)

def activeSources (db : Db) : List (String × String × String) :=
  db.flatMap (·.activeSources)

/-- An active item of a batch that is as `p` says has this path. -/
def Held (db : Db) (input : BatchInput) (p : Batch → Prop) (sourcePath : String) : Prop :=
  ∃ b ∈ db, b.rootId = input.rootId ∧ b.storagePoolId = input.storagePoolId ∧ p b ∧
    ∃ item ∈ b.items, item.active = true ∧ item.sourcePath = sourcePath

/-- A submission that names no file a cancelled batch is still at work on. -/
def FreshSources (s : State) : Action → Prop
  | .create input _ => ∀ item ∈ input.items,
      ¬ Held s.db input (·.jobStatus = .cancelled) item.sourcePath ∧
        (item.sourcePath = "" → ¬ Held s.db input (fun _ => True) item.sourcePath)
  | .submit request answers _ => ∀ input, batchInput request answers = .ok input →
      ∀ item ∈ input.items, ¬ Held s.db input (·.jobStatus = .cancelled) item.sourcePath
  | _ => True

instance (db : Db) (input : BatchInput) (p : Batch → Prop) [DecidablePred p]
    (sourcePath : String) : Decidable (Held db input p sourcePath) :=
  inferInstanceAs (Decidable (∃ b ∈ db, _))

instance (s : State) (a : Action) : Decidable (FreshSources s a) :=
  match a with
  | .create _ _ => inferInstanceAs (Decidable (∀ item ∈ _, _ ∧ _))
  | .submit request answers _ =>
      match h : batchInput request answers with
      | .ok input => decidable_of_iff (∀ item ∈ input.items,
          ¬ Held s.db input (·.jobStatus = .cancelled) item.sourcePath)
          ⟨fun hall input' h' => by rw [h] at h'; cases h'; exact hall, fun hall => hall input h⟩
      | .error _ => isTrue fun input h' => by rw [h] at h'; cases h'
  | .claim .. => isTrue trivial
  | .finish .. => isTrue trivial
  | .cancelJob _ => isTrue trivial
  | .cancelItems .. => isTrue trivial
  | .restart => isTrue trivial

/-! ## What the route asks for -/

theorem getMutableSource_ne {request : BatchRequest} {answers : Answers}
    {requestedPath sourcePath : String}
    (h : getMutableSource request answers requestedPath = .ok sourcePath) :
    sourcePath ≠ "" := by
  obtain ⟨relative, -, h⟩ := bind_ok_iff.mp h
  dsimp only at h
  split at h
  · cases h
  · split at h
    · cases h
    · cases h
      unfold toRootRelative
      split
      · decide
      · assumption

theorem batchItems_sourcePath_ne {request : BatchRequest} {answers : Answers}
    {targetPaths sources : List String} {items : List ItemInput}
    (h : batchItems request answers targetPaths sources = .ok items) {item : ItemInput}
    (hitem : item ∈ items) : item.sourcePath ≠ "" := by
  induction sources generalizing targetPaths items with
  | nil =>
      cases h
      cases hitem
  | cons source rest ih =>
      rw [batchItems] at h
      obtain ⟨sourcePath, hs, h⟩ := bind_ok_iff.mp h
      -- In both branches the item is followed by those of the rest.
      have hcons : ∃ targetPath targetPaths' items',
          batchItems request answers targetPaths' rest = .ok items' ∧
            items = ⟨sourcePath, targetPath, none⟩ :: items' := by
        cases hop : request.operation with
        | trash =>
            rw [hop] at h
            obtain ⟨items', hrest, h⟩ := bind_ok_iff.mp h
            cases h
            exact ⟨none, targetPaths, items', hrest, rfl⟩
        | move =>
            rw [hop] at h
            obtain ⟨targetPath, -, h⟩ := bind_ok_iff.mp h
            split at h
            · cases h
            · obtain ⟨items', hrest, h⟩ := bind_ok_iff.mp h
              cases h
              exact ⟨some targetPath, _, items', hrest, rfl⟩
      obtain ⟨targetPath, targetPaths', items', hrest, rfl⟩ := hcons
      rcases List.mem_cons.mp hitem with rfl | hitem
      · exact getMutableSource_ne hs
      · exact ih hrest hitem

theorem batchInput_sourcePath_ne {request : BatchRequest} {answers : Answers}
    {input : BatchInput} (h : batchInput request answers = .ok input) {item : ItemInput}
    (hitem : item ∈ input.items) : item.sourcePath ≠ "" := by
  unfold batchInput at h
  split at h
  · cases h
  · split at h
    · cases h
    · obtain ⟨items, hitems, h⟩ := bind_ok_iff.mp h
      cases h
      exact batchItems_sourcePath_ne hitems hitem

/-! ## Sources under a transition -/

theorem Batch.activeSources_sublist {b b' : Batch}
    (hscope : b'.rootId = b.rootId ∧ b'.storagePoolId = b.storagePoolId)
    (hitems : List.Forall₂ Item.Follows b.items b'.items) :
    b'.activeSources.Sublist b.activeSources := by
  unfold Batch.activeSources
  rw [hscope.1, hscope.2]
  exact (sublist_of_forall₂ hitems).map _

theorem activeSources_set_sublist {db : Db} {i : Nat} {b b' : Batch} (hb : db[i]? = some b)
    (h : b'.activeSources.Sublist b.activeSources) :
    (activeSources (db.set i b')).Sublist (activeSources db) := by
  rw [List.set_eq_modify]
  refine flatMap_sublist_of_forall₂ (forall₂_modify (fun _ => .refl _) ?_)
  rintro c hc
  rw [hb] at hc
  cases hc
  exact h

theorem activeSources_recover_sublist (db : Db) :
    (activeSources (recoverInterruptedFileBatches db)).Sublist (activeSources db) :=
  flatMap_sublist_of_forall₂ (forall₂_map fun b _ =>
    Batch.activeSources_sublist b.recover_scope b.recover_items)

theorem newBatch_activeSources (input : BatchInput) (uuid : Nat → String) :
    (newBatch input uuid).activeSources = (input.items.map (·.sourcePath)).map
      fun sourcePath => (input.rootId, input.storagePoolId, sourcePath) := by
  have hall : (newBatch input uuid).items.filter (·.active) = (newBatch input uuid).items :=
    List.filter_eq_self.mpr fun item hitem => by rw [Item.active, newBatch_status hitem]; rfl
  have hpaths : (newBatch input uuid).items.map (·.sourcePath) =
      input.items.map (·.sourcePath) := by
    refine List.ext_getElem? fun i => ?_
    simp only [newBatch, newItem, List.getElem?_map, List.getElem?_mapIdx, Option.map_map]
    rfl
  unfold Batch.activeSources
  rw [hall, hpaths]
  rfl

theorem mem_activeSources {db : Db} {input : BatchInput} {sourcePath : String}
    (h : (input.rootId, input.storagePoolId, sourcePath) ∈ activeSources db) :
    Held db input (fun _ => True) sourcePath := by
  obtain ⟨b, hb, h⟩ := List.mem_flatMap.mp h
  obtain ⟨path, hpath, heq⟩ := List.mem_map.mp h
  obtain ⟨item, hitem, rfl⟩ := List.mem_map.mp hpath
  obtain ⟨hitem, hactive⟩ := List.mem_filter.mp hitem
  simp only [Prod.mk.injEq] at heq
  exact ⟨b, hb, heq.1, heq.2.1, trivial, item, hitem, hactive, heq.2.2⟩

/-- Where no batch with a running or queued job has the path, and no cancelled
one holds it, nobody does. -/
theorem not_held_of_free {db : Db} {input : BatchInput} {item : ItemInput}
    (hinStep : ∀ b ∈ db, b.InStep) (hdup : duplicatePaths db input = [])
    (hitem : item ∈ input.items)
    (hcancelled : ¬ Held db input (·.jobStatus = .cancelled) item.sourcePath)
    (hempty : item.sourcePath = "" → ¬ Held db input (fun _ => True) item.sourcePath) :
    ¬ Held db input (fun _ => True) item.sourcePath := by
  rintro ⟨b, hb, hroot, hpool, -, old, hold, hactive, hpath⟩
  have hne : item.sourcePath ≠ "" := fun h =>
    hempty h ⟨b, hb, hroot, hpool, trivial, old, hold, hactive, hpath⟩
  have hactiveJob : b.active = true := by
    have hstep := hinStep b hb
    unfold Batch.active
    cases hjob : b.jobStatus with
    | queued => rfl
    | running => rfl
    | waitingApproval => exact absurd hjob hstep.notWaiting
    | completed =>
        rw [(hstep.ended (.inl hjob)).1 old hold] at hactive
        cases hactive
    | failed =>
        rw [(hstep.ended (.inr hjob)).1 old hold] at hactive
        cases hactive
    | cancelled =>
        exact absurd ⟨b, hb, hroot, hpool, hjob, old, hold, hactive, hpath⟩ hcancelled
  have hquery : duplicateQuery db input.rootId input.storagePoolId item.sourcePath =
      some item.sourcePath := by
    refine if_pos (List.any_eq_true.mpr ⟨b, hb, ?_⟩)
    simp only [hroot, hpool, hactiveJob, beq_self_eq_true, Bool.and_self, Bool.true_and,
      List.any_eq_true, beq_iff_eq]
    exact ⟨old, hold, hpath⟩
  have hmem : item.sourcePath ∈ duplicatePaths db input :=
    List.mem_filter.mpr ⟨List.mem_filterMap.mpr ⟨item, hitem, hquery⟩, by simpa using hne⟩
  rw [hdup] at hmem
  cases hmem

/-- Both ways to submit a batch meet the condition in the same way. -/
theorem FreshSources.input {s : State} {a : Action} {input : BatchInput}
    (h : FreshSources s a) (ha : a.input = some input) {item : ItemInput}
    (hitem : item ∈ input.items) :
    ¬ Held s.db input (·.jobStatus = .cancelled) item.sourcePath ∧
      (item.sourcePath = "" → ¬ Held s.db input (fun _ => True) item.sourcePath) := by
  cases a with
  | create input' uuid =>
      cases ha
      exact h item hitem
  | submit request answers uuid =>
      have hin := toOption_eq_some_iff.mp ha
      exact ⟨h input hin item hitem,
        fun hempty => absurd hempty (batchInput_sourcePath_ne hin hitem)⟩
  | _ => cases ha

/-- In every run whose submissions name no file that a cancelled batch is
still at work on, no two active items share a source. -/
theorem active_sources_distinct {s : State} (h : Reach step FreshSources Initial s) :
    (activeSources s.db).Nodup := by
  induction h with
  | init hs =>
      rw [hs.1]
      exact List.nodup_nil
  | @step s s' a hreach hc ha ih =>
      cases step_transition ha with
      | @created input uuid hin hdup hnodup =>
          simp only [activeSources, List.flatMap_append, List.flatMap_cons, List.flatMap_nil,
            List.append_nil, newBatch_activeSources]
          refine List.nodup_append.mpr ⟨ih, List.pairwise_map.mpr ?_, ?_⟩
          · refine hnodup.imp fun hne hxy => hne ?_
            simpa only [Prod.mk.injEq, true_and] using hxy
          · rintro key hold _ hnew rfl
            obtain ⟨path, hpath, rfl⟩ := List.mem_map.mp hnew
            obtain ⟨item, hitem, rfl⟩ := List.mem_map.mp hpath
            obtain ⟨hcancelled, hempty⟩ := hc.input hin hitem
            exact not_held_of_free (fun b hb => inStep hreach hb) hdup hitem hcancelled hempty
              (mem_activeSources hold)
      | updated hb hbatch _ =>
          exact ih.sublist (activeSources_set_sublist hb
            (Batch.activeSources_sublist hbatch.scope hbatch.items))
      | skipped => exact ih
      | restarted => exact ih.sublist (activeSources_recover_sublist _)

/-- A request to move one file to the trash, spelled as in `requested`, where
the file system answers that it is the file `a`. -/
def trashRequest (requested : String) : BatchRequest where
  rootId := "root"
  storagePoolId := "pool"
  mountpointPath := "."
  operation := .trash
  targetDirectory := none
  sourcePaths := [requested]

def answersA : Answers where
  source _ := .ok "a"
  isSymbolicLink _ := false
  target _ := .error (.unresolved "")

/-- Two batches are active at once, and then one more for a file that an
earlier batch is done with. -/
def distinctRun : List Action :=
  [.create (trashOne "b") (fun _ => "id"), .submit (trashRequest " ./a") answersA (fun _ => "id"),
    .claim 0 0, .finish 0 0 .completed none 1, .create (trashOne "b") (fun _ => "id")]

theorem active_sources_distinct_run :
    ∃ s, Reach step FreshSources Initial s ∧ (activeSources s.db).Nodup ∧
      activeSources s.db = [("root", "pool", "a"), ("root", "pool", "b")] := by
  obtain ⟨s, hrun, hs⟩ := exists_run (guarded step FreshSources) emptyState distinctRun
    (fun s => decide (activeSources s.db = [("root", "pool", "a"), ("root", "pool", "b")]))
    (by decide)
  have hreach : Reach step FreshSources Initial s :=
    .of_guarded (fun _ _ h => h) (.init ⟨rfl, rfl⟩) hrun
  exact ⟨s, hreach, active_sources_distinct hreach, of_decide_eq_true hs⟩

/-- The file of an item that runs on in a cancelled batch is submitted again. -/
def resubmitted : List Action :=
  interruptedCancelled ++ [.submit (trashRequest " ./a") answersA (fun _ => "id2")]

theorem active_sources_shared :
    ∃ s, Reach step anyStep Initial s ∧
      activeSources s.db = [("root", "pool", "a"), ("root", "pool", "a")] := by
  obtain ⟨s, hrun, hs⟩ := exists_run step emptyState resubmitted
    (fun s => decide (activeSources s.db = [("root", "pool", "a"), ("root", "pool", "a")]))
    (by decide)
  exact ⟨s, .of_run (.init ⟨rfl, rfl⟩) (fun _ _ _ => trivial) hrun, of_decide_eq_true hs⟩

end Zos.Batches
