import Zos.Indexer.Changeover
import Zos.Proofs.IndexTables

/-!
# Searching while the text table is replaced

New texts are deleted together with their files, so that they always belong to an indexed file. The
old ones are not: once a file is removed, its row of `indexed_text` belongs to nothing, and as long
as the root is not ready, `queryIndexedText` returns it. Apart from that the searches are right if
the old rows were, and a root that a scan has made ready has no old text left that matters.

`Texts` is what every statement keeps. Over it a search is right iff the rows it reads are one for
each indexed file, and `settled_iff` says what that means for the two tables.
-/

namespace Zos.Indexer.Changeover

open StaticScan (ContentStatus setStatus)
open Zos.Lib (Reach anyStep nodup_map_concat)

/-! ## New texts belong to files -/

structure Texts (index : Index) : Prop where
  valid : index.Valid
  once : (index.content.map (·.fileId)).Nodup
  linked : ∀ text ∈ index.content, ∃ file ∈ index.files,
    file.id = text.fileId ∧ file.rootId = text.rootId

section

variable {index index' : Index}

theorem Texts.of_keeps (h : Texts index) (hvalid : index'.Valid)
    (hfiles : Keeps index.files index'.files) (hcontent : index'.content = index.content) :
    Texts index' where
  valid := hvalid
  once := hcontent ▸ h.once
  linked text htext := by
    exact hfiles.linked (h.linked text (hcontent ▸ htext))

theorem Texts.copyRow (h : Texts index) {row : ContentRow}
    (hrow : ∃ file ∈ index.files, file.id = row.fileId ∧ file.rootId = row.rootId) :
    Texts { index with content := copyRow index.content row } := by
  unfold Changeover.copyRow
  split
  · exact h
  · next hnew =>
      refine ⟨⟨h.valid.paths, h.valid.ids, h.valid.idBound, h.valid.generationBound⟩, ?_, ?_⟩
      · refine nodup_map_concat.mpr ⟨h.once, fun text htext heq => hnew ?_⟩
        exact List.any_eq_true.mpr ⟨text, htext, decide_eq_true heq⟩
      · intro text htext
        rcases List.mem_append.mp htext with htext | htext
        · exact h.linked text htext
        · exact List.mem_singleton.mp htext ▸ hrow

theorem Texts.copyRows (h : Texts index) {rows : List ContentRow}
    (hrows : ∀ row ∈ rows, ∃ file ∈ index.files,
      file.id = row.fileId ∧ file.rootId = row.rootId) :
    Texts { index with content := rows.foldl Changeover.copyRow index.content } := by
  induction rows generalizing index with
  | nil => exact h
  | cons row rows ih =>
      rw [List.forall_mem_cons] at hrows
      exact ih (h.copyRow hrows.1) hrows.2

theorem Texts.publishFile (h : Texts index) {record : IndexedFileRecord}
    {extracted : ExtractedFile} (hgen : ∀ g, record.scanGeneration = some g → g < index.nextId) :
    Texts (publishFile index record extracted) := by
  have hcontent (text : ContentRow) : text ∈ (Indexer.publishFile index record extracted).content ↔
      (text ∈ index.content ∧ text.fileId ≠ publishedId index record) ∨
        text = ⟨publishedId index record, record.rootId, record.path, extracted.body⟩ := by
    simp [Indexer.publishFile, upsertFile_content, publishedId]
  refine ⟨publishFile_valid h.valid hgen, ?_, fun text htext => ?_⟩
  · simp only [Indexer.publishFile, upsertFile_content]
    refine nodup_map_concat.mpr ⟨h.once.sublist (List.filter_sublist.map _), ?_⟩
    exact fun text htext => of_decide_eq_true (List.mem_filter.mp htext).2
  · rcases (hcontent text).mp htext with ⟨hold, -⟩ | rfl
    · exact keeps_upsertFile.linked (h.linked text hold)
    · obtain ⟨file, hfile, hat, -⟩ := publishFile_row record extracted h.valid
      exact ⟨file, hfile, publishedId_of_mem h.valid hfile hat, hat.1⟩

theorem Texts.deleteIds (h : Texts index) (ids : List Nat) : Texts (deleteIds index ids) where
  valid := deleteIds_valid h.valid ids
  once := h.once.sublist (List.filter_sublist.map _)
  linked text htext := by
    obtain ⟨hold, hid⟩ := List.mem_filter.mp htext
    obtain ⟨file, hfile, hfileId, hroot⟩ := h.linked text hold
    exact ⟨file, List.mem_filter.mpr ⟨hfile, by rwa [hfileId]⟩, hfileId, hroot⟩

end

theorem file_of_batch {s : State} {rootId : String} {batchSize : Nat} {row : LegacyRow}
    (h : row ∈ s.batch rootId batchSize) :
    ∃ file ∈ s.index.files, file.id = row.fileId ∧ file.rootId = row.rootId := by
  have hrow := List.mem_mergeSort.mp (List.mem_of_mem_take h)
  simpa using (of_decide_eq_true (List.mem_filter.mp hrow).2).2.2

theorem texts_copyLegacyBatch {s : State} (h : Texts s.index) (rootId : String) (batchSize : Nat) :
    Texts (s.copyLegacyBatch rootId batchSize).index := by
  unfold State.copyLegacyBatch
  split
  · exact h
  · exact h
  · refine h.copyRows fun row hrow => ?_
    obtain ⟨old, hold, rfl⟩ := List.mem_map.mp hrow
    exact file_of_batch hold

theorem texts_step {s s' : State} {a : Action} (h : Texts s.index) (hs : step s a = some s') :
    Texts s'.index := by
  cases a with
  | copyLegacyBatch rootId batchSize =>
      cases hs
      exact texts_copyLegacyBatch h rootId batchSize
  | beginGeneration rootId rootRebuild =>
      cases hs
      exact ⟨h.valid.draw, h.once, h.linked⟩
  | publishFile record extracted =>
      obtain ⟨hdrawn, hs⟩ := Option.ite_none_right_eq_some.mp hs
      cases hs
      exact h.publishFile hdrawn
  | recordExtractionError record error =>
      obtain ⟨hdrawn, hs⟩ := Option.ite_none_right_eq_some.mp hs
      cases hs
      exact h.of_keeps (upsertFile_valid h.valid hdrawn) keeps_upsertFile upsertFile_content
  | touchGeneration rootId path generation =>
      obtain ⟨hdrawn, hs⟩ := Option.ite_none_right_eq_some.mp hs
      cases hs
      exact h.of_keeps (touchGeneration_valid h.valid (hdrawn _ rfl)) keeps_touchGeneration rfl
  | removePath rootId path recursive =>
      cases hs
      exact h.deleteIds _
  | cleanupGeneration rootId path generation rootRebuild =>
      cases hs
      exact h.deleteIds _

theorem Init.texts {s : State} (h : Init s) : Texts s.index :=
  ⟨h.valid, by simp [h.content], by simp [h.content]⟩

theorem Reached.texts (s : Reached) : Texts s.index :=
  s.reached.invariant (I := fun s => Texts s.index) (fun _ => Init.texts)
    fun _ _ _ h _ hs => texts_step h hs

/-- The texts belong to files, and what is removed takes its texts along. -/
theorem new_texts_linked (s : Reached) : Texts s.index ∧
    ∀ rootId path, ∀ text ∈ (removePath s.index rootId path true).2.content,
      ∃ file ∈ s.index.files, file.id = text.fileId ∧
        ¬(file.rootId = rootId ∧ atOrBelow path file.path) := by
  refine ⟨s.texts, fun rootId path text htext => ?_⟩
  obtain ⟨file, hleft, hid, -⟩ := (s.texts.deleteIds _).linked text htext
  obtain ⟨hfile, hkept⟩ := List.mem_filter.mp hleft
  refine ⟨file, hfile, hid, fun hselected => ?_⟩
  refine of_decide_eq_true hkept (List.mem_map.mpr ⟨file, List.mem_filter.mpr ⟨hfile, ?_⟩, rfl⟩)
  simpa using hselected

/-! ## The rows that are read -/

section

variable {s : State} {rootId : String} {file : FileRow} {text : ContentRow}

theorem mem_contentOf :
    text ∈ s.contentOf rootId ↔ text ∈ s.index.content ∧ text.rootId = rootId := by
  simp [State.contentOf]

theorem mem_left : text ∈ s.left rootId ↔ (∃ old ∈ s.legacy, old.toContentRow = text) ∧
    text.rootId = rootId ∧ ∀ other ∈ s.contentOf rootId, other.fileId ≠ text.fileId := by
  simp [State.left]

theorem mem_searched : text ∈ s.searched rootId ↔
    text ∈ s.contentOf rootId ∨ (s.status rootId ≠ .ready ∧ text ∈ s.left rootId) := by
  unfold State.searched
  split <;> simp [*]

theorem mem_newest : text ∈ s.newest file ↔
    (text ∈ s.index.content ∧ text.fileId = file.id) ∨
      (s.index.hasContent file.id = false ∧ (∃ old ∈ s.legacy, old.toContentRow = text) ∧
        text.fileId = file.id ∧ text.rootId = file.rootId) := by
  have hcontent : text ∈ s.index.content.filter (·.fileId = file.id) ↔
      text ∈ s.index.content ∧ text.fileId = file.id := by simp
  have hlegacy : text ∈ (s.legacy.map (·.toContentRow)).filter (fun text =>
      text.fileId = file.id ∧ text.rootId = file.rootId) ↔
      (∃ old ∈ s.legacy, old.toContentRow = text) ∧
        text.fileId = file.id ∧ text.rootId = file.rootId := by
    simp only [List.mem_filter, List.mem_map, decide_eq_true_eq]
  have hnone : s.index.hasContent file.id = false ↔
      s.index.content.filter (·.fileId = file.id) = [] := by
    simp [Index.hasContent, List.filter_eq_nil_iff]
  unfold State.newest
  rw [hnone, ← hlegacy, ← hcontent]
  split
  · next hempty => simp [hempty]
  · next hsome => exact ⟨.inl, fun hor => hor.resolve_right fun hnew => hsome hnew.1⟩

theorem fileId_of_newest (h : text ∈ s.newest file) : text.fileId = file.id := by
  rcases mem_newest.mp h with ⟨-, hid⟩ | ⟨-, -, hid, -⟩ <;> exact hid

/-- A row that a search reads for a file is its newest text. -/
theorem mem_newest_of_searched (h : Texts s.index) (hfile : file ∈ s.index.files)
    (hroot : file.rootId = rootId) (htext : text ∈ s.searched rootId)
    (hid : text.fileId = file.id) : text ∈ s.newest file := by
  rw [mem_newest]
  rcases mem_searched.mp htext with hcontent | ⟨-, hleft⟩
  · exact .inl ⟨(mem_contentOf.mp hcontent).1, hid⟩
  · obtain ⟨hold, htextRoot, hno⟩ := mem_left.mp hleft
    refine .inr ⟨?_, hold, hid, htextRoot.trans hroot.symm⟩
    rw [Bool.eq_false_iff]
    intro hhas
    -- The new text of the file would be of the same root.
    obtain ⟨other, hother, hotherId⟩ := hasContent_iff.mp hhas
    obtain ⟨file', hfile', hid', hroot'⟩ := h.linked other hother
    obtain rfl := h.valid.eq_of_id hfile hfile' (hotherId.symm.trans hid'.symm)
    exact hno other (mem_contentOf.mpr ⟨hother, hroot'.symm.trans hroot⟩)
      (hotherId.trans hid.symm)

/-- The newest text of a file is read if the root is not ready or the file is covered. -/
theorem mem_searched_of_newest (h : Texts s.index) (hfile : file ∈ s.index.files)
    (hcovered : s.status file.rootId = .ready → s.Covered file) (htext : text ∈ s.newest file) :
    text ∈ s.searched file.rootId := by
  rw [mem_searched]
  rcases mem_newest.mp htext with ⟨hcontent, hid⟩ | ⟨hnone, ⟨old, hold, rfl⟩, hid, hroot⟩
  · obtain ⟨file', hfile', hid', hroot'⟩ := h.linked text hcontent
    obtain rfl := h.valid.eq_of_id hfile hfile' (hid.symm.trans hid'.symm)
    exact .inl (mem_contentOf.mpr ⟨hcontent, hroot'.symm⟩)
  · refine .inr ⟨fun hready => ?_, mem_left.mpr ⟨⟨old, hold, rfl⟩, hroot, ?_⟩⟩
    · rcases hcovered hready with hhas | hno
      · rw [hnone] at hhas
        cases hhas
      · exact hno old hold ⟨hid, hroot⟩
    · intro other hother hotherId
      have hhas := hasContent_iff.mpr
        ⟨other, (mem_contentOf.mp hother).1, hotherId.trans hid⟩
      rw [hnone] at hhas
      cases hhas

/-! ## When the searches are right -/

/-- The rows that a search reads are one for each file. -/
structure OneEach (s : State) (rootId : String) : Prop where
  once : ((s.searched rootId).map (·.fileId)).Nodup
  indexed : ∀ text ∈ s.searched rootId, s.Indexed rootId text
  covered : s.status rootId = .ready →
    ∀ file ∈ s.index.files, file.rootId = rootId → s.Covered file

theorem oneEach_iff_settled (h : Texts s.index) : OneEach s rootId ↔ s.Settled rootId := by
  have honce : ((s.contentOf rootId).map (·.fileId)).Nodup :=
    h.once.sublist (List.filter_sublist.map _)
  constructor
  · intro hone
    refine ⟨fun text htext => hone.indexed text (mem_searched.mpr (.inl htext)), hone.covered,
      fun hready => ⟨?_, fun text htext =>
        hone.indexed text (mem_searched.mpr (.inr ⟨hready, htext⟩))⟩⟩
    have hall := hone.once
    rw [State.searched, if_neg hready, List.map_append, List.nodup_append] at hall
    exact hall.2.1
  · intro hsettled
    refine ⟨?_, fun text htext => ?_, hsettled.ready⟩
    · unfold State.searched
      split
      · rwa [List.append_nil]
      · next hready =>
          rw [List.map_append, List.nodup_append]
          refine ⟨honce, (hsettled.left hready).1, fun id hid id' hid' heq => ?_⟩
          obtain ⟨text, htext, rfl⟩ := List.mem_map.mp hid
          obtain ⟨old, hold, rfl⟩ := List.mem_map.mp hid'
          exact (mem_left.mp hold).2.2 text htext heq
    · rcases mem_searched.mp htext with hcontent | ⟨hready, hleft⟩
      · exact hsettled.copied text hcontent
      · exact (hsettled.left hready).2 text hleft

theorem mem_queryIndexedText {found : String → Bool} {path : String} {id : Nat} :
    id ∈ queryIndexedText s rootId found path ↔ ∃ text ∈ s.searched rootId,
      text.fileId = id ∧ found text.body = true ∧ atOrBelow path text.path := by
  simp only [queryIndexedText, List.mem_map, List.mem_filter, decide_eq_true_eq]
  constructor
  · rintro ⟨text, ⟨htext, hfound, hbelow⟩, hid⟩
    exact ⟨text, htext, hid, hfound, hbelow⟩
  · rintro ⟨text, htext, hid, hfound, hbelow⟩
    exact ⟨text, ⟨htext, hfound, hbelow⟩, hid⟩

theorem mem_queryIndexAdvanced {found : String → Bool} {accepts : FileRow → Bool} {id : Nat} :
    id ∈ queryIndexAdvanced s rootId found accepts ↔ ∃ file ∈ s.index.files, file.id = id ∧
      file.rootId = rootId ∧ accepts file = true ∧
        ∃ text ∈ s.searched rootId, text.fileId = file.id ∧ found text.body = true := by
  simp only [queryIndexAdvanced, List.mem_flatMap, List.mem_map, List.mem_filter,
    decide_eq_true_eq]
  constructor
  · rintro ⟨file, ⟨hfile, hroot, haccepts⟩, text, ⟨htext, hfound, hid⟩, rfl⟩
    exact ⟨file, hfile, hid.symm, hroot, haccepts, text, htext, hid, hfound⟩
  · rintro ⟨file, hfile, rfl, hroot, haccepts, text, htext, hid, hfound⟩
    exact ⟨file, ⟨hfile, hroot, haccepts⟩, text, ⟨htext, hfound, hid⟩, hid⟩

theorem nodup_queryIndexAdvanced (h : Texts s.index)
    (honce : ((s.searched rootId).map (·.fileId)).Nodup) (found : String → Bool)
    (accepts : FileRow → Bool) : (queryIndexAdvanced s rootId found accepts).Nodup := by
  have hids : (s.index.files.filter fun file => file.rootId = rootId ∧ accepts file).Pairwise
      fun a b => a.id ≠ b.id := by
    rw [← List.pairwise_map, ← List.nodup_iff_pairwise_ne]
    exact h.valid.ids.sublist (List.filter_sublist.map _)
  rw [queryIndexAdvanced, List.nodup_flatMap]
  refine ⟨fun file _ => honce.sublist (List.filter_sublist.map _), hids.imp ?_⟩
  intro a b hne id ha hb
  obtain ⟨text, htext, rfl⟩ := List.mem_map.mp ha
  obtain ⟨other, hother, hid⟩ := List.mem_map.mp hb
  have htextId := (of_decide_eq_true (List.mem_filter.mp htext).2).2
  have hotherId := (of_decide_eq_true (List.mem_filter.mp hother).2).2
  exact hne (htextId.symm.trans (hid.symm.trans hotherId))

theorem searchedRight_of_oneEach (h : Texts s.index) (hone : OneEach s rootId) :
    s.SearchedRight rootId := by
  refine ⟨fun found path => ⟨hone.once.sublist (List.filter_sublist.map _), fun id => ?_⟩,
    fun found accepts => ⟨nodup_queryIndexAdvanced h hone.once found accepts, fun id => ?_⟩⟩
  · rw [mem_queryIndexedText]
    constructor
    · rintro ⟨text, htext, rfl, hfound, hbelow⟩
      obtain ⟨file, hfile, hid, hroot, hpath⟩ := hone.indexed text htext
      rw [← hpath] at hbelow
      exact ⟨file, hfile, hid, hroot, hbelow, text,
        mem_newest_of_searched h hfile hroot htext hid.symm, hfound⟩
    · rintro ⟨file, hfile, rfl, rfl, hbelow, text, htext, hfound⟩
      have hread := mem_searched_of_newest h hfile (hone.covered · file hfile rfl) htext
      have hid := fileId_of_newest htext
      obtain ⟨file', hfile', hid', -, hpath⟩ := hone.indexed text hread
      obtain rfl := h.valid.eq_of_id hfile hfile' (hid.symm.trans hid'.symm)
      exact ⟨text, hread, hid, hfound, hpath ▸ hbelow⟩
  · rw [mem_queryIndexAdvanced]
    constructor
    · rintro ⟨file, hfile, hid, hroot, haccepts, text, htext, htextId, hfound⟩
      exact ⟨file, hfile, hid, hroot, haccepts, text,
        mem_newest_of_searched h hfile hroot htext htextId, hfound⟩
    · rintro ⟨file, hfile, hid, rfl, haccepts, text, htext, hfound⟩
      exact ⟨file, hfile, hid, rfl, haccepts, text,
        mem_searched_of_newest h hfile (hone.covered · file hfile rfl) htext,
        fileId_of_newest htext, hfound⟩

theorem atOrBelow_antisymm {a b : String} (hab : atOrBelow a b) (hba : atOrBelow b a) : a = b := by
  have hdot {c : String} (h : ".".toList.take (c.length + 1) = c.toList ++ ['/']) : False := by
    have hslash : '/' ∈ ".".toList.take (c.length + 1) := by rw [h]; simp
    exact absurd (List.mem_of_mem_take hslash) (by decide)
  rcases hab with rfl | rfl | hab
  · rcases hba with rfl | rfl | hba
    · rfl
    · rfl
    · exact (hdot hba).elim
  · rfl
  · rcases hba with rfl | rfl | hba
    · exact (hdot hab).elim
    · rfl
    · have hlength := congrArg List.length hab
      have hlength' := congrArg List.length hba
      simp only [List.length_take, List.length_append, List.length_singleton,
        String.length_toList] at hlength hlength'
      omega

theorem oneEach_of_searchedRight (hright : s.SearchedRight rootId) : OneEach s rootId := by
  have honce : ((s.searched rootId).map (·.fileId)).Nodup := by
    have hall := (hright.text (fun _ => true) ".").1
    rwa [queryIndexedText, List.filter_eq_self.mpr fun _ _ => by simp [atOrBelow]] at hall
  refine ⟨honce, fun text htext => ?_, fun hready file hfile hroot => ?_⟩
  · -- The search below the path of the row returns it, the one below the path of the file, too.
    obtain ⟨file, hfile, hid, hroot, hbelow, hnewest⟩ :=
      ((hright.text (fun _ => true) text.path).2 text.fileId).mp
        (mem_queryIndexedText.mpr ⟨text, htext, rfl, rfl, .inr (.inl rfl)⟩)
    obtain ⟨other, hother, hotherId, -, hbelow'⟩ := mem_queryIndexedText.mp
      (((hright.text (fun _ => true) file.path).2 file.id).mpr
        ⟨file, hfile, rfl, hroot, .inr (.inl rfl), hnewest⟩)
    obtain rfl := List.inj_on_of_nodup_map honce hother htext (hotherId.trans hid)
    exact ⟨file, hfile, hid, hroot, atOrBelow_antisymm hbelow' hbelow⟩
  · by_contra hcovered
    simp only [State.Covered, not_or, Bool.not_eq_true, not_forall, not_not] at hcovered
    obtain ⟨hnone, old, hold, hoid, horoot⟩ := hcovered
    have hnewest := mem_newest.mpr (.inr ⟨hnone, ⟨old, hold, rfl⟩, hoid, horoot⟩)
    obtain ⟨text, htext, hid, -, -⟩ := mem_queryIndexedText.mp
      (((hright.text (fun _ => true) ".").2 file.id).mpr
        ⟨file, hfile, rfl, hroot, .inl rfl, _, hnewest, rfl⟩)
    have hcontent := (mem_searched.mp htext).resolve_right fun hleft => hleft.1 hready
    rw [hasContent_iff.mpr ⟨text, (mem_contentOf.mp hcontent).1, hid⟩] at hnone
    cases hnone

end

theorem searched_right_iff (s : Reached) (rootId : String) :
    s.SearchedRight rootId ↔ s.Settled rootId := by
  rw [← oneEach_iff_settled s.texts]
  exact ⟨oneEach_of_searchedRight, searchedRight_of_oneEach s.texts⟩

/-! ## A removed file is found -/

/-- One file with an old text. -/
def migrated : State where
  index := ⟨[⟨0, "r", none, "a", none, none, .pending, none⟩], [], 1⟩
  legacy := [⟨⟨0, "r", "a", ""⟩, 1⟩]
  status _ := .legacy
  legacyCursor _ := 0
  failed := []

theorem migrated_init : Init migrated where
  valid := ⟨by decide, by decide, by decide, by simp [migrated]⟩
  content := rfl
  generations := by decide
  known := by decide
  status _ := rfl

/-- `remove_path` leaves the old text, which `queryIndexedText` returns. -/
theorem removed_file_is_found : ∃ s : Reached, ¬ s.SearchedRight "r" := by
  refine ⟨⟨_, .step (.init migrated_init) trivial (a := .removePath "r" "a" false) rfl⟩, ?_⟩
  intro hright
  obtain ⟨file, hfile, -⟩ := ((hright.text (fun _ => true) ".").2 0).mp (by decide)
  exact absurd hfile (by simp [migrated, removePath, selectedIds, deleteIds, FileRow.isAt])

/-! ## Roots that scans have made ready -/

/-- What a row comes from: it has a new id, or the id of an old row and then at least its texts.
A generation is an old one, or the row has a text, or the scan has failed. -/
def Comes (s s' : State) (file' : FileRow) : Prop :=
  s.index.nextId ≤ file'.id ∨ ∃ file ∈ s.index.files,
    file'.id = file.id ∧ file'.rootId = file.rootId ∧
      (s.index.hasContent file.id = true → s'.index.hasContent file.id = true) ∧
      (file'.scanGeneration = file.scanGeneration ∨ s'.index.hasContent file.id = true ∨
        ∃ g ∈ file'.scanGeneration, g ∈ s'.failed)

structure Scanned (s s' : State) : Prop where
  legacy : s'.legacy = s.legacy
  nextId : s.index.nextId ≤ s'.index.nextId
  failed : s.failed ⊆ s'.failed
  rows : ∀ file' ∈ s'.index.files, Comes s s' file'
  ready : ∀ file' ∈ s'.index.files, s'.status file'.rootId = .ready →
    s.status file'.rootId = .ready ∨ ∃ g ∈ file'.scanGeneration, g ∉ s'.failed

section

variable {s s' : State}

theorem comes_of_mem {file : FileRow} (hfile : file ∈ s.index.files)
    (hcontent : s.index.hasContent file.id = true → s'.index.hasContent file.id = true) :
    Comes s s' file :=
  .inr ⟨file, hfile, rfl, rfl, hcontent, .inl rfl⟩

theorem hasContent_copyRows {rows content : List ContentRow} {id : Nat}
    (h : content.any (·.fileId = id) = true) :
    (rows.foldl copyRow content).any (·.fileId = id) = true := by
  induction rows generalizing content with
  | nil => exact h
  | cons row rows ih =>
      refine ih ?_
      unfold copyRow
      split
      · exact h
      · rw [List.any_append, h, Bool.true_or]

theorem not_ready_of_setStatus {status : String → ContentStatus} {rootId other : String}
    {value : ContentStatus} (hvalue : value ≠ .ready)
    (h : setStatus status rootId value other = .ready) : status other = .ready := by
  unfold setStatus at h
  split at h
  · exact absurd h hvalue
  · exact h

theorem scanned_copyLegacyBatch (rootId : String) (batchSize : Nat) :
    Scanned s (s.copyLegacyBatch rootId batchSize) := by
  have hsame : Scanned s s :=
    ⟨rfl, le_rfl, fun _ h => h, fun file' h => comes_of_mem h id, fun _ _ h => .inl h⟩
  unfold State.copyLegacyBatch
  split
  · exact hsame
  · exact hsame
  · refine ⟨rfl, le_rfl, fun _ h => h, fun file' h => comes_of_mem h hasContent_copyRows,
      fun file' _ hready => .inl (not_ready_of_setStatus ?_ hready)⟩
    split <;> simp

theorem scanned_beginGeneration (rootId : String) (rootRebuild : Bool) :
    Scanned s (s.beginGeneration rootId rootRebuild) := by
  refine ⟨rfl, Nat.le_succ _, fun _ h => h, fun file' h => comes_of_mem h id,
    fun file' _ hready => .inl ?_⟩
  simp only [State.beginGeneration] at hready
  split at hready
  · exact not_ready_of_setStatus (by simp) hready
  · exact hready

theorem scanned_publishFile (h : Texts s.index) (record : IndexedFileRecord)
    (extracted : ExtractedFile) :
    Scanned s { s with index := publishFile s.index record extracted } := by
  refine ⟨rfl, upsertFile_nextId, fun _ h => h, fun file' hfile' => ?_, fun _ _ h => .inl h⟩
  have hcontent (file : FileRow) (hhas : s.index.hasContent file.id = true) :
      (publishFile s.index record extracted).hasContent file.id = true :=
    hasContent_publishFile.mpr (.inr hhas)
  rcases mem_upsertFile.mp hfile' with ⟨-, hold⟩ | ⟨file, hfile, hat, rfl⟩ | ⟨-, rfl⟩
  · exact comes_of_mem hold (hcontent file')
  · have hid : (file.put record extracted.status none).id = publishedId s.index record :=
      publishedId_of_mem h.valid hfile' hat
    exact .inr ⟨file, hfile, rfl, rfl, hcontent file,
      .inr (.inl (hasContent_publishFile.mpr (.inl hid)))⟩
  · exact .inl le_rfl

theorem scanned_recordExtractionError (record : IndexedFileRecord) (error : IndexerError) :
    Scanned s { s with
      index := recordExtractionError s.index record error
      failed := s.failed ++ record.scanGeneration.toList } := by
  refine ⟨rfl, upsertFile_nextId, fun _ h => List.mem_append_left _ h, fun file' hfile' => ?_,
    fun _ _ h => .inl h⟩
  have hcontent (file : FileRow) (hhas : s.index.hasContent file.id = true) :
      (recordExtractionError s.index record error).hasContent file.id = true := by
    rwa [Index.hasContent, recordExtractionError, upsertFile_content]
  rcases mem_upsertFile.mp hfile' with ⟨-, hold⟩ | ⟨file, hfile, -, rfl⟩ | ⟨-, rfl⟩
  · exact comes_of_mem hold (hcontent file')
  · refine .inr ⟨file, hfile, rfl, rfl, hcontent file, ?_⟩
    cases hgeneration : record.scanGeneration with
    | none => exact .inl (by rw [FileRow.put, hgeneration, Option.none_or])
    | some g => exact .inr (.inr ⟨g, by rw [FileRow.put, hgeneration]; rfl, by simp⟩)
  · exact .inl le_rfl

theorem scanned_touchGeneration {rootId path : String} {generation : Nat}
    (h : AsScanned s (.touchGeneration rootId path generation)) :
    Scanned s { s with index := touchGeneration s.index rootId path generation } := by
  refine ⟨rfl, le_rfl, fun _ h => h, fun file' hfile' => ?_, fun _ _ h => .inl h⟩
  rcases mem_touchGeneration.mp hfile' with ⟨-, hold⟩ | ⟨file, hfile, hat, rfl⟩
  · exact comes_of_mem hold id
  · exact .inr ⟨file, hfile, rfl, rfl, id, .inr (.inl (h file hfile hat))⟩

theorem comes_deleteIds {ids : List Nat} {file : FileRow}
    (h : file ∈ (deleteIds s.index ids).files) (status : String → ContentStatus) :
    Comes s { s with index := deleteIds s.index ids, status := status } file :=
  comes_of_mem (List.mem_filter.mp h).1 fun hhas => (hasContent_deleteIds h).trans hhas

theorem scanned_cleanupGeneration (ht : Texts s.index) {rootId path : String} {generation : Nat}
    {rootRebuild : Bool} (h : AsScanned s (.cleanupGeneration rootId path generation rootRebuild)) :
    Scanned s (s.cleanupGeneration rootId path generation rootRebuild) := by
  refine ⟨rfl, le_rfl, fun _ h => h, fun file' hfile' => comes_deleteIds hfile' _,
    fun file' hfile' hready => ?_⟩
  cases rootRebuild with
  | false => exact .inl hready
  | true =>
      obtain ⟨rfl, hfailed⟩ := h rfl
      simp only [State.cleanupGeneration, if_true, setStatus] at hready
      split at hready
      · next hroot =>
          have hkept := ((mem_cleanupGeneration ht.valid).mp hfile').2
          have hgeneration : file'.scanGeneration = some generation := by
            by_contra hother
            exact hkept ⟨hroot, .inl rfl, hother⟩
          exact .inr ⟨generation, hgeneration, hfailed⟩
      · exact .inl hready

theorem scanned_step {a : Action} (ht : Texts s.index) (ha : AsScanned s a)
    (hs : step s a = some s') : Scanned s s' := by
  cases a with
  | copyLegacyBatch rootId batchSize =>
      cases hs
      exact scanned_copyLegacyBatch rootId batchSize
  | beginGeneration rootId rootRebuild =>
      cases hs
      exact scanned_beginGeneration rootId rootRebuild
  | publishFile record extracted =>
      obtain ⟨-, hs⟩ := Option.ite_none_right_eq_some.mp hs
      cases hs
      exact scanned_publishFile ht record extracted
  | recordExtractionError record error =>
      obtain ⟨-, hs⟩ := Option.ite_none_right_eq_some.mp hs
      cases hs
      exact scanned_recordExtractionError record error
  | touchGeneration rootId path generation =>
      obtain ⟨-, hs⟩ := Option.ite_none_right_eq_some.mp hs
      cases hs
      exact scanned_touchGeneration ha
  | removePath rootId path recursive =>
      cases hs
      exact ⟨rfl, le_rfl, fun _ h => h, fun file' h => comes_deleteIds h _, fun _ _ h => .inl h⟩
  | cleanupGeneration rootId path generation rootRebuild =>
      cases hs
      exact scanned_cleanupGeneration ht ha

/-- Rows that a scan without errors has come to have no old text that matters. -/
structure Coverage (s : State) : Prop where
  texts : Texts s.index
  known : ∀ text ∈ s.legacy, text.fileId < s.index.nextId
  scanned : ∀ file ∈ s.index.files, ∀ g ∈ file.scanGeneration, g ∉ s.failed → s.Covered file
  ready : ∀ file ∈ s.index.files, s.status file.rootId = .ready → s.Covered file

theorem Init.coverage (h : Init s) : Coverage s where
  texts := h.texts
  known := h.known
  scanned file hfile g hg := by
    rw [h.generations file hfile] at hg
    cases hg
  ready file _ hready := by
    rw [h.status] at hready
    cases hready

theorem Coverage.step (h : Coverage s) (ht : Texts s'.index) (hs : Scanned s s') :
    Coverage s' := by
  have hnew {file' : FileRow} (hid : s.index.nextId ≤ file'.id) : s'.Covered file' :=
    .inr fun text htext heq => absurd (h.known text (hs.legacy ▸ htext)) (by omega)
  have hold {file file' : FileRow} (hid : file'.id = file.id) (hroot : file'.rootId = file.rootId)
      (hcontent : s.index.hasContent file.id = true → s'.index.hasContent file.id = true)
      (hcovered : s.Covered file) : s'.Covered file' := by
    rcases hcovered with hhas | hno
    · exact .inl (hid ▸ hcontent hhas)
    · refine .inr ?_
      rwa [hs.legacy, hid, hroot]
  have hscanned (file' : FileRow) (hfile' : file' ∈ s'.index.files) (g : Nat)
      (hg : g ∈ file'.scanGeneration) (hfailed : g ∉ s'.failed) : s'.Covered file' := by
    rcases hs.rows file' hfile' with hid | ⟨file, hfile, hid, hroot, hcontent, hor⟩
    · exact hnew hid
    · rcases hor with hsame | hhas | ⟨g', hg', hfailed'⟩
      · exact hold hid hroot hcontent
          (h.scanned file hfile g (hsame ▸ hg) fun hold => hfailed (hs.failed hold))
      · exact .inl (hid ▸ hhas)
      · exact absurd (Option.mem_unique hg hg' ▸ hfailed') hfailed
  refine ⟨ht, fun text htext => ?_, hscanned, fun file' hfile' hready => ?_⟩
  · exact (h.known text (hs.legacy ▸ htext)).trans_le hs.nextId
  · rcases hs.ready file' hfile' hready with hready | ⟨g, hg, hfailed⟩
    · rcases hs.rows file' hfile' with hid | ⟨file, hfile, hid, hroot, hcontent, -⟩
      · exact hnew hid
      · exact hold hid hroot hcontent (h.ready file hfile (hroot ▸ hready))
    · exact hscanned file' hfile' g hg hfailed

end

/-- As the scanner goes, the files of a ready root need no old texts. -/
theorem covered_of_ready {s : State} (h : Reach step AsScanned Init s) {file : FileRow}
    (hfile : file ∈ s.index.files) (hready : s.status file.rootId = .ready) : s.Covered file :=
  (h.invariant (I := Coverage) (fun _ => Init.coverage) fun _ _ _ hs ha hstep =>
    hs.step (texts_step hs.texts hstep) (scanned_step hs.texts ha hstep)).ready file hfile hready

theorem covered_after_scan : ∃ s, Reach step AsScanned Init s ∧ s.status "r" = .ready ∧
    ∀ file ∈ s.index.files, s.Covered file := by
  have hbegun : Reach step AsScanned Init (migrated.beginGeneration "r" true) :=
    .step (.init migrated_init) trivial (a := .beginGeneration "r" true) rfl
  have hpublished := Reach.step (a := Action.publishFile
    ⟨"r", none, "a", ⟨0, 0, 0, 0, 0⟩, some 1⟩ ⟨.ready, "new"⟩) hbegun trivial rfl
  have hs := Reach.step (a := Action.cleanupGeneration "r" "." 1 true) hpublished
    (fun _ => ⟨rfl, List.not_mem_nil⟩) rfl
  refine ⟨_, hs, rfl, fun file hfile => covered_of_ready hs hfile ?_⟩
  revert file
  decide

end Zos.Indexer.Changeover
