import Zos.Indexer.StaticScan
import Zos.Proofs.IndexTables

/-!
# One file that fails keeps what is stale

The failures of files and of directories go into one list, and the cleanup is skipped when it is
not empty, although a traversal in which only files failed knows all that is there. So a scan
with a failing file leaves behind what was stale before it, and a root that was not ready is not
ready after it.

A future writes the row of its own path, and only when that path can be opened: `Step` says so once,
and what a whole scan keeps follows by induction on the order of the futures. As texts belong to
rows, only rows have to be followed.
-/

namespace Zos.Indexer.StaticScan

open Zos.Lib (segments)

/-! ## Texts belong to rows -/

theorem Linked.of_keeps {index index' : Index} (h : Linked index)
    (hfiles : Keeps index.files index'.files) (hcontent : index'.content = index.content) :
    Linked index' := by
  intro text htext
  obtain ⟨row, hrow, hid, hroot, hpath⟩ := h text (hcontent ▸ htext)
  obtain ⟨row', hrow', hid', hroot', hpath'⟩ := hfiles row hrow
  exact ⟨row', hrow', hid'.trans hid, hroot'.trans hroot, hpath'.trans hpath⟩

theorem Linked.publishFile {index : Index} (h : Linked index) (hvalid : index.Valid)
    (record : IndexedFileRecord) (extracted : ExtractedFile) :
    Linked (publishFile index record extracted) := by
  intro text htext
  rcases List.mem_append.mp htext with htext | htext
  · have hold : text ∈ index.content := by
      simpa only [upsertFile_content] using (List.mem_filter.mp htext).1
    obtain ⟨row, hrow, hid, hroot, hpath⟩ := h text hold
    have hkept : Keeps index.files (index.upsertFile record extracted.status none).files :=
      keeps_upsertFile
    obtain ⟨row', hrow', hid', hroot', hpath'⟩ := hkept row hrow
    exact ⟨row', hrow', hid'.trans hid, hroot'.trans hroot, hpath'.trans hpath⟩
  · obtain ⟨row, hrow, hat, -⟩ := publishFile_row record extracted hvalid
    rw [List.mem_singleton.mp htext]
    exact ⟨row, hrow, publishedId_of_mem hvalid hrow hat, hat⟩

theorem Linked.deleteIds {index : Index} (h : Linked index) (ids : List Nat) :
    Linked (deleteIds index ids) := by
  intro text htext
  obtain ⟨hold, hid⟩ := List.mem_filter.mp htext
  obtain ⟨row, hrow, hrowId, hat⟩ := h text hold
  exact ⟨row, List.mem_filter.mpr ⟨hrow, by rwa [hrowId]⟩, hrowId, hat⟩

/-! ## One future -/

section

variable {root : Node} {task : QueueTask} {generation : Nat} {answers : String → Answer}
  {index : Index} {path : String}

theorem present_of_openFile {identity : FileIdentity} (h : openFile root path = .ok identity) :
    Present root path := by
  cases hwalk : root.walk (segments path) with
  | ok node => exact ⟨node, hwalk⟩
  | error errno =>
      simp only [openFile, openBeneath, hwalk] at h
      cases hvalid : validateRelativePath path <;> rw [hvalid] at h <;> cases h

/-- What a future does to the index. -/
structure Step (root : Node) (rootId : String) (path : String) (index index' : Index) : Prop where
  wrote : Wrote rootId path index index'
  present : index' = index ∨ Present root path
  valid : index'.Valid
  linked : Linked index'

theorem Step.refl (hvalid : index.Valid) (hlinked : Linked index) :
    Step root task.rootId path index index :=
  ⟨⟨fun _ _ => .rfl, fun _ _ _ => rfl, le_rfl⟩, .inl rfl, hvalid, hlinked⟩

theorem recordExtractionError_wrote {record : IndexedFileRecord} {error : IndexerError} :
    Wrote record.rootId record.path index (recordExtractionError index record error) where
  others _ hat := upsertFile_others hat
  content _ _ _ := by
    rw [Bool.eq_iff_iff, hasContent_iff, hasContent_iff, recordExtractionError, upsertFile_content]
  nextId := upsertFile_nextId

theorem step_recordExtractionError (record : IndexedFileRecord) (error : IndexerError)
    (hpresent : Present root record.path) (hvalid : index.Valid) (hlinked : Linked index)
    (hgen : ∀ g, record.scanGeneration = some g → g < index.nextId) :
    Step root record.rootId record.path index (recordExtractionError index record error) :=
  ⟨recordExtractionError_wrote, .inr hpresent, upsertFile_valid hvalid hgen,
    hlinked.of_keeps keeps_upsertFile upsertFile_content⟩

theorem step_publishFile (record : IndexedFileRecord) (extracted : ExtractedFile)
    (hpresent : Present root record.path) (hvalid : index.Valid) (hlinked : Linked index)
    (hgen : ∀ g, record.scanGeneration = some g → g < index.nextId) :
    Step root record.rootId record.path index (publishFile index record extracted) :=
  ⟨publishFile_wrote hvalid, .inr hpresent, publishFile_valid hvalid hgen,
    hlinked.publishFile hvalid _ _⟩

theorem unchanged_iff (hvalid : index.Valid) {rootId : String} {identity : FileIdentity} :
    unchanged index rootId path identity = true ↔
      ∃ row ∈ index.files, row.isAt rootId path ∧ row.identity = some identity ∧
        index.hasContent row.id = true := by
  rw [unchanged, Option.any_eq_true]
  constructor
  · rintro ⟨existing, hexisting, hsame⟩
    obtain ⟨row, hrow, hat, hidentity, hcontent⟩ := existingFile_row hexisting
    rw [decide_eq_true_eq] at hsame
    exact ⟨row, hrow, hat, hidentity.trans hsame.1, hcontent.trans hsame.2⟩
  · rintro ⟨row, hrow, hat, hidentity, hcontent⟩
    refine ⟨_, by rw [existingFile, hvalid.find hrow hat]; rfl, ?_⟩
    simp [hidentity, hcontent]

/-- A future that does not fail leaves a row that the next one finds unchanged. -/
theorem processFile_spec (root : Node) (task : QueueTask) (answers : String → Answer)
    (path : String) (hvalid : index.Valid) (hlinked : Linked index)
    (hgeneration : generation < index.nextId) :
    Step root task.rootId path index (processFile root task generation answers index path).1 ∧
      ((processFile root task generation answers index path).2 ≠ none ↔
        Fails root task answers index path) ∧
      (¬ Fails root task answers index path → ∃ identity, openFile root path = .ok identity ∧
        unchanged (processFile root task generation answers index path).1 task.rootId path
          identity = true) := by
  have hgen : ∀ g, some generation = some g → g < index.nextId := by
    rintro g hg
    cases hg
    exact hgeneration
  unfold processFile Fails
  cases answers path with
  | unread error => simp [Step.refl hvalid hlinked]
  | extracted result =>
      cases hopen : openFile root path with
      | error error => simp [Step.refl hvalid hlinked]
      | ok identity =>
          have hpresent := present_of_openFile hopen
          simp only
          split
          · -- the row is as it was
            next hunchanged =>
              have hstep : Step root task.rootId path index
                  (touchGeneration index task.rootId path generation) :=
                ⟨touchGeneration_wrote, .inr hpresent, touchGeneration_valid hvalid hgeneration,
                  hlinked.of_keeps keeps_touchGeneration rfl⟩
              refine ⟨hstep, by cases result <;> simp [hunchanged], fun _ => ⟨identity, rfl, ?_⟩⟩
              rw [unchanged_iff hstep.valid]
              obtain ⟨row, hrow, hat, hidentity, hcontent⟩ := (unchanged_iff hvalid).mp hunchanged
              exact ⟨_, mem_touchGeneration.mpr (.inr ⟨row, hrow, hat, rfl⟩), hat, hidentity,
                hcontent⟩
          · next hunchanged =>
              let record : IndexedFileRecord :=
                ⟨task.rootId, task.storagePoolId, path, identity, some generation⟩
              cases result with
              | error error =>
                  exact ⟨step_recordExtractionError record error hpresent hvalid hlinked hgen,
                    by simp [hunchanged], by simp [hunchanged]⟩
              | ok extracted =>
                  have hstep := step_publishFile record extracted hpresent hvalid hlinked hgen
                  refine ⟨hstep, by simp, fun _ => ⟨identity, rfl, ?_⟩⟩
                  obtain ⟨row, hrow, hat, hidentity, hcontent, -⟩ :=
                    publishFile_row record extracted hvalid
                  exact (unchanged_iff hstep.valid).mpr ⟨row, hrow, hat, hidentity, hcontent⟩

theorem Step.unchanged_of_ne {rootId other : String} {index' : Index}
    (h : Step root rootId path index index') (hne : other ≠ path) (identity : FileIdentity) :
    unchanged index' rootId other identity = unchanged index rootId other identity := by
  rw [unchanged, unchanged, h.wrote.existingFile_of_ne h.valid hne]

/-- Whether another file fails does not depend on it. -/
theorem Step.fails_of_ne {index' : Index} {other : String}
    (h : Step root task.rootId path index index') (hne : other ≠ path) :
    Fails root task answers index' other ↔ Fails root task answers index other := by
  unfold Fails
  split
  · rfl
  · rfl
  · rw [h.unchanged_of_ne hne]
  · rfl

end

/-! ## All futures -/

section

variable (root : Node) (task : QueueTask) (answers : String → Answer) {generation : Nat}

/-- What the scan leaves as it was, and what it has stamped. -/
structure Scanned (root : Node) (rootId : String) (generation : Nat) (index index' : Index) :
    Prop where
  valid : index'.Valid
  linked : Linked index'
  absent : ∀ row, row.rootId = rootId → ¬ Present root row.path →
    (row ∈ index'.files ↔ row ∈ index.files)
  stamped : (∀ row ∈ index.files, row.rootId = rootId →
      row.scanGeneration = some generation → Present root row.path) →
    ∀ row ∈ index'.files, row.rootId = rootId → row.scanGeneration = some generation →
      Present root row.path

variable {root} in
theorem Step.scanned {rootId path : String} {index index' : Index}
    (h : Step root rootId path index index') : Scanned root rootId generation index index' := by
  refine ⟨h.valid, h.linked, fun row _ habsent => ?_, fun hold row hrow hroot hgeneration => ?_⟩
  · rcases h.present with rfl | hpresent
    · rfl
    · exact h.wrote.others row fun hat => habsent (hat.2 ▸ hpresent)
  · rcases h.present with rfl | hpresent
    · exact hold row hrow hroot hgeneration
    · by_cases hat : row.isAt rootId path
      · exact hat.2 ▸ hpresent
      · exact hold row ((h.wrote.others row hat).mp hrow) hroot hgeneration

variable {root} in
theorem Scanned.trans {rootId : String} {index index' index'' : Index}
    (h : Scanned root rootId generation index index')
    (h' : Scanned root rootId generation index' index'') :
    Scanned root rootId generation index index'' where
  valid := h'.valid
  linked := h'.linked
  absent row hroot habsent := (h'.absent row hroot habsent).trans (h.absent row hroot habsent)
  stamped hold := h'.stamped (h.stamped hold)

theorem scanFiles_scanned (order : List String) {index : Index} (hvalid : index.Valid)
    (hlinked : Linked index) (hgeneration : generation < index.nextId) :
    Scanned root task.rootId generation index
      (scanFiles root task generation answers order index).1 := by
  induction order generalizing index with
  | nil => exact ⟨hvalid, hlinked, fun _ _ _ => .rfl, fun h => h⟩
  | cons path rest ih =>
      have hstep := (processFile_spec root task answers path hvalid hlinked hgeneration).1
      exact hstep.scanned.trans
        (ih hstep.valid hstep.linked (hgeneration.trans_le hstep.wrote.nextId))

/-- A scan has failures exactly if a file fails in the index it began with. -/
theorem failures_eq_nil_iff (order : List String) {index : Index} (hvalid : index.Valid)
    (hlinked : Linked index) (hgeneration : generation < index.nextId) :
    (scanFiles root task generation answers order index).2 = [] ↔
      ∀ path ∈ order, ¬ Fails root task answers index path := by
  induction order generalizing index with
  | nil => simp [scanFiles]
  | cons path rest ih =>
      obtain ⟨hstep, hfailure, hunchanged⟩ :=
        processFile_spec root task answers path hvalid hlinked hgeneration
      have hrest := ih hstep.valid hstep.linked (hgeneration.trans_le hstep.wrote.nextId)
      have hnil (failure : Option (String × String)) : failure.toList = [] ↔ ¬ failure ≠ none := by
        cases failure <;> simp
      rw [scanFiles, List.append_eq_nil_iff, hrest, hnil, hfailure, List.forall_mem_cons]
      refine and_congr_right fun hok => forall₂_congr fun other _ => not_congr ?_
      by_cases hne : other = path
      · -- the file itself is unchanged now
        subst hne
        refine iff_of_false (fun hfails => ?_) hok
        obtain ⟨identity, hopen, hsame⟩ := hunchanged hok
        unfold Fails at hok hfails
        rw [hopen] at hok hfails
        cases hanswer : answers other with
        | unread error => rw [hanswer] at hok; exact hok trivial
        | extracted result =>
            rw [hanswer] at hfails
            cases result with
            | ok extracted => exact hfails
            | error error => exact absurd hsame (by simp [show _ = false from hfails])
      · exact hstep.fails_of_ne hne

end

/-! ## The task -/

/-- Rows that are clean have clean texts. -/
theorem Clean.of_files {root : Node} {task : QueueTask} {state : State}
    (hlinked : Linked state.index)
    (hfiles : ∀ row ∈ state.index.files, row.rootId = task.rootId →
      atOrBelow task.path row.path → Present root row.path)
    (hready : task.path = "." → state.status task.rootId = .ready) : Clean root task state := by
  refine ⟨hfiles, fun text htext hroot hbelow => ?_, hready⟩
  obtain ⟨row, hrow, -, hat⟩ := hlinked text htext
  rw [← hat.2] at hbelow ⊢
  exact hfiles row hrow (hat.1.trans hroot) hbelow

theorem beginGeneration_ready (state : State) (task : QueueTask) (h : task.path = ".") :
    (beginGeneration state task).status task.rootId = .ready ↔
      state.status task.rootId = .ready := by
  by_cases hready : state.status task.rootId = .ready <;>
    simp [beginGeneration, setStatus, h, hready]

theorem cleaned_iff (root : Node) (task : QueueTask) (traversal : Traversal root task)
    (answers : String → Answer) (prior : Prior) :
    Clean root task (runTask root task answers traversal.order prior.toState).1 ↔
      (∀ path ∈ traversal.order, ¬ Fails root task answers prior.index path) ∨
        Clean root task prior.toState := by
  have hscan := scanFiles_scanned root task answers traversal.order prior.valid.draw prior.linked
    (Nat.lt_succ_self prior.index.nextId)
  have hfails := failures_eq_nil_iff root task answers traversal.order prior.valid.draw
    prior.linked (Nat.lt_succ_self prior.index.nextId)
  change _ ↔ (∀ path ∈ _, ¬ Fails root task answers
    ({ prior.index with nextId := prior.index.nextId + 1 } : Index) path) ∨ _
  rw [← hfails, runTask]
  simp only
  split
  · next hfailed =>
      -- nothing has been removed, and a root that was not ready is not ready
      refine Iff.trans ?_ (or_iff_right hfailed).symm
      constructor
      · intro h
        refine .of_files prior.linked (fun row hrow hroot hbelow => ?_) fun hpath =>
          (beginGeneration_ready prior.toState task hpath).mp (h.ready hpath)
        by_contra habsent
        exact habsent (h.files row ((hscan.absent row hroot habsent).mpr hrow) hroot hbelow)
      · intro h
        refine .of_files hscan.linked (fun row hrow hroot hbelow => ?_) fun hpath =>
          (beginGeneration_ready prior.toState task hpath).mpr (h.ready hpath)
        by_contra habsent
        exact habsent (h.files row ((hscan.absent row hroot habsent).mp hrow) hroot hbelow)
  · next hok =>
      refine iff_of_true ?_ (.inl (not_not.mp hok))
      refine .of_files (hscan.linked.deleteIds _) (fun row hrow hroot hbelow => ?_) fun hpath => by
        simp [hpath, setStatus]
      obtain ⟨hscanned, hkept⟩ := (mem_cleanupGeneration hscan.valid).mp hrow
      have hgeneration : row.scanGeneration = some prior.index.nextId :=
        not_not.mp fun hne => hkept ⟨hroot, hbelow, hne⟩
      refine hscan.stamped (fun old hold _ hstamp => ?_) row hscanned hroot hgeneration
      exact absurd (prior.valid.generationBound old hold _ hstamp) (Nat.lt_irrefl _)

/-! ## A document that cannot be extracted -/

def brokenTree : Node := .directory ⟨1, 1, 0, 0, 0⟩ [("broken.pdf", .file ⟨1, 2, 10, 5, 5⟩)]

def rebuild : QueueTask := ⟨0, "dev", none, ".", true, .full, 0, 0⟩

def brokenTraversal : Traversal brokenTree rebuild where
  entries := [("broken.pdf", .file ⟨1, 2, 10, 5, 5⟩)]
  recursive := rfl
  considered := by decide
  opened := by rfl
  order := ["broken.pdf"]
  perm := by decide

def goneRow : FileRow := ⟨0, "dev", none, "gone.txt", none, none, .ready, none⟩

def goneIndex : Prior where
  index := ⟨[goneRow], [⟨0, "dev", "gone.txt", "text"⟩], 1⟩
  status _ := .rebuilding
  valid := ⟨by decide, by decide, by decide, by simp [goneRow]⟩
  linked := by simp [Linked, goneRow, FileRow.isAt]

def unreadable : String → Answer := fun _ => .extracted (.error (.new "EXTRACTION" "bad" false))

/-- The row of a file that is gone is left, as another file cannot be extracted. -/
theorem gone_row_is_kept : ¬ Clean brokenTree rebuild
    (runTask brokenTree rebuild unreadable brokenTraversal.order goneIndex.toState).1 := by
  intro h
  obtain ⟨node, hnode⟩ := h.files goneRow (by decide) rfl (.inl rfl)
  have hgone : brokenTree.walk (segments goneRow.path) = .error .ENOENT := by rfl
  cases hgone.symm.trans hnode

end Zos.Indexer.StaticScan
