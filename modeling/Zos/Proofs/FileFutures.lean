import Zos.Indexer.ProcessFile
import Zos.Indexer.Quiet
import Zos.Proofs.StaleCleanup

/-!
# One future, seen from three sides

`process_file` is there access by access, as one step of a scan of a tree that stays as it is, and
as an update of the rows of a root. The accesses of a future in such a tree come to the end that
the step has, and the rows that the step leaves are those of the update.
-/

namespace Zos.Indexer

/-- The accesses of a future from one point to its end, with nobody else at work. -/
inductive FileRuns (root : Node) (c : FileContext) (path : String) :
    Index → FilePc → Index → FileOutcome → Prop where
  | done {index index' : Index} {pc : FilePc} {outcome : FileOutcome} (move : FileMove)
      (h : processFile root index c path pc move = some (index', .done outcome)) :
      FileRuns root c path index pc index' outcome
  | more {index next index' : Index} {pc : FilePc} {outcome : FileOutcome} (move : FileMove)
      (pc' : FilePc) (h : processFile root index c path pc move = some (next, .more pc'))
      (rest : FileRuns root c path next pc' index' outcome) :
      FileRuns root c path index pc index' outcome

section

variable {root : Node} {path : String} {identity : FileIdentity}

theorem verifyFileUnchanged_of_openFile (h : openFile root path = .ok identity) :
    verifyFileUnchanged root path identity = .ok () := by
  rw [verifyFileUnchanged, h]
  show (if identity ≠ identity then _ else _) = _
  exact if_neg (not_not.mpr rfl)

theorem verifyUnchanged_of_openRoot (h : openRoot root = .ok identity) :
    verifyUnchanged root identity = .ok () := by
  cases root with
  | directory now entries =>
      cases h
      exact if_pos rfl
  | file | symlink | other => cases h

namespace StaticScan

variable {task : QueueTask} {generation : Nat} {answers : String → Answer} {index : Index}

theorem processFile_opened (c : FileContext) :
    Indexer.processFile root index c path (.opened identity) .next = some (index, .more
      (if unchanged index c.rootId path identity then .matched identity
        else .extracting identity)) := by
  unfold Indexer.processFile unchanged
  cases existingFile index c.rootId path with
  | none => rfl
  | some existing =>
      simp only [Option.any_some, decide_eq_true_eq]
      split <;> rfl

/-- The step of a scan is what the accesses come to. -/
theorem processFile_runs (hroot : openRoot root = .ok identity)
    (hfault : ∀ error, answers path = .unread error → isMissing error = false) :
    ∃ outcome, FileRuns root ⟨task.rootId, task.storagePoolId, identity, some generation⟩ path index
        .fresh (processFile root task generation answers index path).1 outcome ∧
      outcome.failure = (processFile root task generation answers index path).2 := by
  unfold processFile
  cases hanswer : answers path with
  | unread error => exact ⟨_, .done (.fault ⟨error, hfault error hanswer⟩) rfl, rfl⟩
  | extracted result =>
      cases hopen : openFile root path with
      | error error =>
          refine ⟨⟨false, false, 0, false, some (path, stableReason error)⟩, .done .next ?_, rfl⟩
          simp [Indexer.processFile, hopen, FileStep.failed]
      | ok now =>
          have hverify := verifyFileUnchanged_of_openFile hopen
          suffices ∃ outcome, FileRuns root _ path index (.opened now) _ outcome ∧ _ by
            obtain ⟨outcome, hruns, hfailure⟩ := this
            exact ⟨outcome, .more .next _ (by simp [Indexer.processFile, hopen]) hruns, hfailure⟩
          simp only
          split
          · next hunchanged =>
              refine ⟨⟨false, true, now.size, false, none⟩,
                .more .next _ (processFile_opened _) ?_, rfl⟩
              rw [if_pos hunchanged]
              refine .more .next (.touching now generation) ?_ (.done .next rfl)
              simp [Indexer.processFile, hverify]
          · next hunchanged =>
              have hsource := verifyUnchanged_of_openRoot hroot
              cases result with
              | ok extracted =>
                  refine ⟨⟨true, false, now.size, extracted.status = .ready, none⟩,
                    .more .next _ (processFile_opened _) ?_, rfl⟩
                  rw [if_neg hunchanged]
                  refine .more (.extracted (.ok extracted)) (.publishing now extracted) ?_
                    (.done .next rfl)
                  simp [Indexer.processFile, hverify, hsource]
              | error error =>
                  refine ⟨⟨false, false, now.size, false, some (path, stableReason error)⟩,
                    .more .next _ (processFile_opened _) ?_, rfl⟩
                  rw [if_neg hunchanged]
                  refine .more (.extracted (.error error)) (.erring now error) ?_
                    (.done .next rfl)
                  simp [Indexer.processFile, hverify]

end StaticScan

namespace Quiet

variable {task : QueueTask} {index : Index}

/-- The rows of a root in the index. -/
def rowsOf (index : Index) (rootId : String) : Rows := fun path =>
  (existingFile index rootId path).map fun existing =>
    if existing.hasContent then existing.identity else none

theorem rowsOf_eq_iff {rootId : String} :
    rowsOf index rootId path = some (some identity) ↔
      StaticScan.unchanged index rootId path identity = true := by
  unfold rowsOf StaticScan.unchanged
  cases existingFile index rootId path with
  | none => simp
  | some existing => cases hcontent : existing.hasContent <;> simp [hcontent]

/-- The rows that the step leaves are those of the update. -/
theorem processFile_rowsOf {extracts : FileIdentity → Bool} {rows : Rows} {generation : Nat}
    {result : Except IndexerError ExtractedFile} {answers : String → StaticScan.Answer}
    (hvalid : index.Valid) (hlinked : StaticScan.Linked index)
    (hgeneration : generation < index.nextId) (hanswer : answers path = .extracted result)
    (hextracts : ∀ now, openFile root path = .ok now → extracts now = true → result.isOk = true)
    (h : processFile root extracts (rowsOf index task.rootId) path = some rows) :
    (StaticScan.processFile root task generation answers index path).2 = none ∧
      rowsOf (StaticScan.processFile root task generation answers index path).1 task.rootId =
        rows := by
  obtain ⟨hstep, hfailure, hleft⟩ :=
    StaticScan.processFile_spec root task answers path hvalid hlinked hgeneration
  unfold processFile at h
  cases hopen : openFile root path with
  | error error =>
      rw [hopen] at h
      cases h
  | ok now =>
      simp only [hopen, rowsOf_eq_iff] at h
      have hfine : ¬ StaticScan.Fails root task answers index path := by
        unfold StaticScan.Fails
        rw [hanswer, hopen]
        cases result with
        | ok extracted => exact id
        | error error =>
            intro hchanged
            rw [if_neg (by simp [hchanged])] at h
            split at h
            · next hextract => cases hextracts now hopen hextract
            · cases h
      obtain ⟨identity, hidentity, hunchanged⟩ := hleft hfine
      cases hopen.symm.trans hidentity
      refine ⟨not_not.mp (mt hfailure.mp hfine), funext fun other => ?_⟩
      by_cases hother : other = path
      · rw [hother, rowsOf_eq_iff.mpr hunchanged]
        split at h
        · next hsame =>
            cases h
            exact (rowsOf_eq_iff.mpr hsame).symm
        · split at h
          · cases h
            exact (if_pos rfl).symm
          · cases h
      · rw [rowsOf, hstep.wrote.existingFile_of_ne hstep.valid hother]
        split at h
        · cases h
          rfl
        · split at h
          · cases h
            exact (if_neg hother).symm
          · cases h

end Quiet

end

end Zos.Indexer
