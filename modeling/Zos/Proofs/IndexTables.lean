import Zos.Indexer.Index
import Zos.Lib.Keyed

/-!
# What the statements do to the index

A scan writes the row of one path at a time; `Wrote` says that the rows of other
paths and their texts are left alone. A deletion keeps exactly the rows that it
does not select.
-/

namespace Zos.Indexer

open Zos.Lib

theorem isAt_row (record : IndexedFileRecord) (id : Nat) (status : ExtractionStatus)
    (error : Option String) : (record.row id status error).isAt record.rootId record.path :=
  ⟨rfl, rfl⟩

section

variable {index : Index} {rootId path : String}

theorem mem_of_find {row : FileRow} (h : index.find rootId path = some row) :
    row ∈ index.files ∧ row.isAt rootId path :=
  ⟨List.mem_of_find?_eq_some h, by simpa using List.find?_some h⟩

theorem not_isAt_of_find (h : index.find rootId path = none) {row : FileRow}
    (hrow : row ∈ index.files) : ¬ row.isAt rootId path := by
  simpa using List.find?_eq_none.mp h row hrow

theorem hasContent_iff {id : Nat} :
    index.hasContent id = true ↔ ∃ c ∈ index.content, c.fileId = id := by
  simp [Index.hasContent]

theorem Index.Valid.eq_of_isAt (h : index.Valid) {row row' : FileRow} (hrow : row ∈ index.files)
    (hrow' : row' ∈ index.files) (hat : row.isAt rootId path) (hat' : row'.isAt rootId path) :
    row = row' := by
  refine List.inj_on_of_nodup_map h.paths hrow hrow' ?_
  rw [hat.1, hat.2, hat'.1, hat'.2]

theorem Index.Valid.eq_of_id (h : index.Valid) {row row' : FileRow} (hrow : row ∈ index.files)
    (hrow' : row' ∈ index.files) (hid : row.id = row'.id) : row = row' :=
  List.inj_on_of_nodup_map h.ids hrow hrow' hid

theorem Index.Valid.find (h : index.Valid) {row : FileRow} (hrow : row ∈ index.files)
    (hat : row.isAt rootId path) : index.find rootId path = some row := by
  cases hfind : index.find rootId path with
  | none => exact absurd hat (not_isAt_of_find hfind hrow)
  | some row' =>
      obtain ⟨hrow', hat'⟩ := mem_of_find hfind
      rw [h.eq_of_isAt hrow hrow' hat hat']

/-- The row that `existing_file` found. -/
theorem existingFile_row {existing : ExistingFile}
    (h : existingFile index rootId path = some existing) : ∃ row ∈ index.files,
      row.isAt rootId path ∧ row.identity = existing.identity ∧
        index.hasContent row.id = existing.hasContent := by
  obtain ⟨row, hfind, rfl⟩ := Option.map_eq_some_iff.mp h
  obtain ⟨hrow, hat⟩ := mem_of_find hfind
  exact ⟨row, hrow, hat, rfl, rfl⟩

theorem Index.Valid.draw (h : index.Valid) :
    ({ index with nextId := index.nextId + 1 } : Index).Valid where
  paths := h.paths
  ids := h.ids
  idBound row hrow := Nat.lt_succ_of_lt (h.idBound row hrow)
  generationBound row hrow g hg := Nat.lt_succ_of_lt (h.generationBound row hrow g hg)

end

/-! ## One row is written -/

/-- Only the row of one path has been written. -/
structure Wrote (rootId path : String) (index index' : Index) : Prop where
  others : ∀ row, ¬ row.isAt rootId path → (row ∈ index'.files ↔ row ∈ index.files)
  content : ∀ row ∈ index.files, ¬ row.isAt rootId path →
    index'.hasContent row.id = index.hasContent row.id
  nextId : index.nextId ≤ index'.nextId

/-- The other paths show what they did. -/
theorem Wrote.existingFile_of_ne {rootId path other : String} {index index' : Index}
    (h : Wrote rootId path index index') (hvalid' : index'.Valid) (hne : other ≠ path) :
    existingFile index' rootId other = existingFile index rootId other := by
  have hother {row : FileRow} (hat : row.isAt rootId other) : ¬ row.isAt rootId path :=
    fun hpath => hne (hat.2.symm.trans hpath.2)
  cases hfind : index.find rootId other with
  | some row =>
      obtain ⟨hrow, hat⟩ := mem_of_find hfind
      have hfind' := hvalid'.find ((h.others row (hother hat)).mpr hrow) hat
      simp [existingFile, hfind, hfind', h.content row hrow (hother hat)]
  | none =>
      have hfind' : index'.find rootId other = none := by
        cases hnew : index'.find rootId other with
        | none => rfl
        | some row =>
            obtain ⟨hrow, hat⟩ := mem_of_find hnew
            exact absurd hat (not_isAt_of_find hfind ((h.others row (hother hat)).mp hrow))
      simp [existingFile, hfind, hfind']

section

variable {index : Index} {rootId path : String} {record : IndexedFileRecord}
  {status : ExtractionStatus} {error : Option String}

/-- An update of the row at a path. -/
def rewrite (rows : List FileRow) (rootId path : String) (f : FileRow → FileRow) : List FileRow :=
  rows.map fun row => if row.isAt rootId path then f row else row

theorem mem_rewrite {rows : List FileRow} {f : FileRow → FileRow} {row' : FileRow} :
    row' ∈ rewrite rows rootId path f ↔
      (¬ row'.isAt rootId path ∧ row' ∈ rows) ∨
        ∃ row ∈ rows, row.isAt rootId path ∧ row' = f row := by
  unfold rewrite
  rw [List.mem_map]
  constructor
  · rintro ⟨row, hrow, rfl⟩
    split
    · next hat => exact .inr ⟨row, hrow, hat, rfl⟩
    · next hat => exact .inl ⟨hat, hrow⟩
  · rintro (⟨hat, hrow⟩ | ⟨row, hrow, hat, rfl⟩)
    · exact ⟨row', hrow, if_neg hat⟩
    · exact ⟨row, hrow, if_pos hat⟩

theorem rewrite_keys {rows : List FileRow} {f : FileRow → FileRow} {κ : Type} (key : FileRow → κ)
    (hf : ∀ row, row.isAt rootId path → key (f row) = key row) :
    (rewrite rows rootId path f).map key = rows.map key := by
  unfold rewrite
  rw [List.map_map]
  refine List.map_congr_left fun row _ => ?_
  simp only [Function.comp_apply]
  split
  · next hat => exact hf row hat
  · rfl

/-- Rewriting keeps the tables valid when keys and ids stay and a new generation
has been drawn. -/
theorem Index.Valid.rewrite (h : index.Valid) {f : FileRow → FileRow}
    (hkey : ∀ row, (f row).rootId = row.rootId ∧ (f row).path = row.path ∧ (f row).id = row.id)
    (hgen : ∀ row ∈ index.files, ∀ g, (f row).scanGeneration = some g → g < index.nextId) :
    ({ index with files := rewrite index.files rootId path f } : Index).Valid := by
  have hmem {row' : FileRow} (hrow' : row' ∈ Indexer.rewrite index.files rootId path f) :
      row' ∈ index.files ∨ ∃ row ∈ index.files, row' = f row := by
    rcases mem_rewrite.mp hrow' with ⟨-, hrow⟩ | ⟨row, hrow, -, rfl⟩
    · exact .inl hrow
    · exact .inr ⟨row, hrow, rfl⟩
  constructor
  · rw [rewrite_keys _ fun row _ => by rw [(hkey row).1, (hkey row).2.1]]
    exact h.paths
  · rw [rewrite_keys _ fun row _ => (hkey row).2.2]
    exact h.ids
  · intro row' hrow'
    rcases hmem hrow' with hrow | ⟨row, hrow, rfl⟩
    · exact h.idBound row' hrow
    · rw [(hkey row).2.2]
      exact h.idBound row hrow
  · intro row' hrow' g hg
    rcases hmem hrow' with hrow | ⟨row, hrow, rfl⟩
    · exact h.generationBound row' hrow g hg
    · exact hgen row hrow g hg

theorem touchGeneration_files {generation : Nat} :
    (touchGeneration index rootId path generation).files =
      rewrite index.files rootId path fun row => { row with scanGeneration := some generation } :=
  rfl

theorem mem_touchGeneration {generation : Nat} {row' : FileRow} :
    row' ∈ (touchGeneration index rootId path generation).files ↔
      (¬ row'.isAt rootId path ∧ row' ∈ index.files) ∨
        ∃ row ∈ index.files, row.isAt rootId path ∧
          row' = { row with scanGeneration := some generation } := by
  rw [touchGeneration_files, mem_rewrite]

theorem touchGeneration_valid (h : index.Valid) {generation : Nat}
    (hgen : generation < index.nextId) :
    (touchGeneration index rootId path generation).Valid := by
  refine h.rewrite (fun row => ⟨rfl, rfl, rfl⟩) fun row _ g hg => ?_
  cases hg
  exact hgen

theorem touchGeneration_wrote {generation : Nat} :
    Wrote rootId path index (touchGeneration index rootId path generation) where
  others row hat := by
    rw [mem_touchGeneration]
    constructor
    · rintro (h | ⟨old, -, hold, rfl⟩)
      · exact h.2
      · exact absurd hold hat
    · exact fun h => .inl ⟨hat, h⟩
  content _ _ _ := rfl
  nextId := le_rfl

/-- The rows after an upsert: the others, and the old row written over or a new one. -/
theorem mem_upsertFile {row' : FileRow} :
    row' ∈ (index.upsertFile record status error).files ↔
      (¬ row'.isAt record.rootId record.path ∧ row' ∈ index.files) ∨
        (∃ row ∈ index.files, row.isAt record.rootId record.path ∧
          row' = row.put record status error) ∨
        (index.find record.rootId record.path = none ∧
          row' = record.row index.nextId status error) := by
  unfold Index.upsertFile
  split
  · next found hfind =>
      rw [hfind]
      refine mem_rewrite.trans ?_
      simp
  · next hfind =>
      rw [List.mem_append, List.mem_singleton]
      constructor
      · rintro (hrow | rfl)
        · exact .inl ⟨not_isAt_of_find hfind hrow, hrow⟩
        · exact .inr (.inr ⟨hfind, rfl⟩)
      · rintro (⟨-, hrow⟩ | ⟨row, hrow, hat, -⟩ | ⟨-, rfl⟩)
        · exact .inl hrow
        · exact absurd hat (not_isAt_of_find hfind hrow)
        · exact .inr rfl

theorem upsertFile_content :
    (index.upsertFile record status error).content = index.content := by
  unfold Index.upsertFile
  split <;> rfl

theorem upsertFile_nextId : index.nextId ≤ (index.upsertFile record status error).nextId := by
  unfold Index.upsertFile
  split
  · exact le_rfl
  · exact Nat.le_succ _

theorem upsertFile_valid (h : index.Valid)
    (hgen : ∀ g, record.scanGeneration = some g → g < index.nextId) :
    (index.upsertFile record status error).Valid := by
  unfold Index.upsertFile
  split
  · refine h.rewrite (fun row => ⟨rfl, rfl, rfl⟩) fun row hrow g hg => ?_
    rcases Option.or_eq_some_iff.mp hg with hg | ⟨-, hg⟩
    · exact hgen g hg
    · exact h.generationBound row hrow g hg
  · next hfind =>
      have hnew := h.draw
      constructor
      · refine nodup_map_concat.mpr ⟨h.paths, fun row hrow heq => ?_⟩
        exact not_isAt_of_find hfind hrow (Prod.mk.inj heq)
      · exact nodup_map_concat.mpr ⟨h.ids, fun row hrow => Nat.ne_of_lt (h.idBound row hrow)⟩
      · intro row hrow
        rcases List.mem_append.mp hrow with hrow | hrow
        · exact hnew.idBound row hrow
        · rw [List.mem_singleton.mp hrow]
          exact Nat.lt_succ_self _
      · intro row hrow g hg
        rcases List.mem_append.mp hrow with hrow | hrow
        · exact hnew.generationBound row hrow g hg
        · rw [List.mem_singleton.mp hrow] at hg
          exact Nat.lt_succ_of_lt (hgen g hg)

theorem publishFile_valid {extracted : ExtractedFile} (h : index.Valid)
    (hgen : ∀ g, record.scanGeneration = some g → g < index.nextId) :
    (publishFile index record extracted).Valid :=
  let hup := upsertFile_valid h hgen
  ⟨hup.paths, hup.ids, hup.idBound, hup.generationBound⟩

theorem upsertFile_others {row : FileRow} (hat : ¬ row.isAt record.rootId record.path) :
    row ∈ (index.upsertFile record status error).files ↔ row ∈ index.files := by
  rw [mem_upsertFile]
  constructor
  · rintro (h | ⟨old, -, hold, rfl⟩ | ⟨-, rfl⟩)
    · exact h.2
    · exact absurd hold hat
    · exact absurd (isAt_row record _ _ _) hat
  · exact fun h => .inl ⟨hat, h⟩

/-- The id under which a record is published. -/
def publishedId (index : Index) (record : IndexedFileRecord) : Nat :=
  ((index.find record.rootId record.path).map (·.id)).getD index.nextId

theorem hasContent_publishFile {extracted : ExtractedFile} {id : Nat} :
    (publishFile index record extracted).hasContent id = true ↔
      id = publishedId index record ∨ index.hasContent id = true := by
  simp only [hasContent_iff, publishFile, upsertFile_content, List.mem_append, List.mem_filter,
    List.mem_singleton, decide_eq_true_eq]
  constructor
  · rintro ⟨c, ⟨hc, -⟩ | rfl, rfl⟩
    · exact .inr ⟨c, hc, rfl⟩
    · exact .inl rfl
  · rintro (rfl | ⟨c, hc, rfl⟩)
    · exact ⟨_, .inr rfl, rfl⟩
    · by_cases hid : c.fileId = publishedId index record
      · exact ⟨_, .inr rfl, hid.symm⟩
      · exact ⟨c, .inl ⟨hc, hid⟩, rfl⟩

/-- The row of a published path has the id of the text. -/
theorem publishedId_of_mem (h : index.Valid) {extracted : ExtractedFile} {row : FileRow}
    (hrow : row ∈ (publishFile index record extracted).files)
    (hat : row.isAt record.rootId record.path) : row.id = publishedId index record := by
  rcases mem_upsertFile.mp hrow with ⟨hno, -⟩ | ⟨old, hold, hoat, rfl⟩ | ⟨hfind, rfl⟩
  · exact absurd hat hno
  · rw [publishedId, h.find hold hoat]
    rfl
  · rw [publishedId, hfind]
    rfl

theorem upsertFile_row (index : Index) (record : IndexedFileRecord) (status : ExtractionStatus)
    (error : Option String) : ∃ row ∈ (index.upsertFile record status error).files,
      row.isAt record.rootId record.path := by
  cases hfind : index.find record.rootId record.path with
  | some old =>
      obtain ⟨hold, hat⟩ := mem_of_find hfind
      exact ⟨_, mem_upsertFile.mpr (.inr (.inl ⟨old, hold, hat, rfl⟩)), hat⟩
  | none => exact ⟨_, mem_upsertFile.mpr (.inr (.inr ⟨hfind, rfl⟩)), ⟨rfl, rfl⟩⟩

/-- What an upsert writes into the row. -/
theorem upsertFile_written {row : FileRow}
    (hrow : row ∈ (index.upsertFile record status error).files)
    (hat : row.isAt record.rootId record.path) :
    row.identity = some record.identity ∧ row.extractionStatus = status ∧
      ∀ g, record.scanGeneration = some g → row.scanGeneration = some g := by
  rcases mem_upsertFile.mp hrow with ⟨hno, -⟩ | ⟨old, hold, hoat, rfl⟩ | ⟨hfind, rfl⟩
  · exact absurd hat hno
  · refine ⟨rfl, rfl, fun g hg => ?_⟩
    rw [FileRow.put, hg, Option.some_or]
  · exact ⟨rfl, rfl, fun _ h => h⟩

/-- The row that a publication leaves. -/
theorem publishFile_row (record : IndexedFileRecord) (extracted : ExtractedFile)
    (hvalid : index.Valid) : ∃ row ∈ (publishFile index record extracted).files,
      row.isAt record.rootId record.path ∧ row.identity = some record.identity ∧
        (publishFile index record extracted).hasContent row.id = true ∧
        ∀ g, record.scanGeneration = some g → row.scanGeneration = some g := by
  obtain ⟨row, hrow, hat⟩ := upsertFile_row index record extracted.status none
  obtain ⟨hidentity, -, hgeneration⟩ := upsertFile_written hrow hat
  refine ⟨row, hrow, hat, hidentity, ?_, hgeneration⟩
  exact hasContent_publishFile.mpr (.inl (publishedId_of_mem hvalid hrow hat))

theorem publishFile_wrote (h : index.Valid) {extracted : ExtractedFile} :
    Wrote record.rootId record.path index (publishFile index record extracted) where
  others _ hat := upsertFile_others hat
  content row hrow hat := by
    rw [Bool.eq_iff_iff, hasContent_publishFile]
    refine ⟨fun hor => hor.resolve_left fun hid => hat ?_, .inr⟩
    unfold publishedId at hid
    cases hfind : index.find record.rootId record.path with
    | none =>
        rw [hfind] at hid
        exact absurd hid (Nat.ne_of_lt (h.idBound row hrow))
    | some found =>
        rw [hfind] at hid
        obtain ⟨hmem, hfound⟩ := mem_of_find hfind
        rw [h.eq_of_id hrow hmem hid]
        exact hfound
  nextId := upsertFile_nextId

/-- Every row has a successor with its id, root and path. -/
def Keeps (rows rows' : List FileRow) : Prop :=
  ∀ row ∈ rows, ∃ row' ∈ rows', row'.id = row.id ∧ row'.rootId = row.rootId ∧ row'.path = row.path

/-- What belongs to a row belongs to its successor. -/
theorem Keeps.linked {rows rows' : List FileRow} (h : Keeps rows rows') {text : ContentRow}
    (hrow : ∃ row ∈ rows, row.id = text.fileId ∧ row.rootId = text.rootId) :
    ∃ row ∈ rows', row.id = text.fileId ∧ row.rootId = text.rootId := by
  obtain ⟨row, hmem, hid, hroot⟩ := hrow
  obtain ⟨row', hmem', hid', hroot', -⟩ := h row hmem
  exact ⟨row', hmem', hid'.trans hid, hroot'.trans hroot⟩

theorem keeps_touchGeneration {generation : Nat} :
    Keeps index.files (touchGeneration index rootId path generation).files := by
  intro row hrow
  by_cases hat : row.isAt rootId path
  · exact ⟨_, mem_touchGeneration.mpr (.inr ⟨row, hrow, hat, rfl⟩), rfl, rfl, rfl⟩
  · exact ⟨row, mem_touchGeneration.mpr (.inl ⟨hat, hrow⟩), rfl, rfl, rfl⟩

theorem keeps_upsertFile :
    Keeps index.files (index.upsertFile record status error).files := by
  intro row hrow
  by_cases hat : row.isAt record.rootId record.path
  · exact ⟨_, mem_upsertFile.mpr (.inr (.inl ⟨row, hrow, hat, rfl⟩)), rfl, rfl, rfl⟩
  · exact ⟨row, mem_upsertFile.mpr (.inl ⟨hat, hrow⟩), rfl, rfl, rfl⟩

end

/-! ## Rows are deleted -/

section

variable {index : Index}

/-- A deletion by ids keeps the rows that were not selected, with their texts. -/
theorem mem_deleteIds (h : index.Valid) {p : FileRow → Bool} {row : FileRow} :
    row ∈ (deleteIds index ((index.files.filter p).map (·.id))).files ↔
      row ∈ index.files ∧ p row = false := by
  simp only [deleteIds, List.mem_filter, List.mem_map, decide_eq_true_eq, not_exists, not_and,
    and_imp]
  constructor
  · rintro ⟨hrow, hno⟩
    refine ⟨hrow, ?_⟩
    by_contra hp
    exact hno row hrow (by simpa using hp) rfl
  · rintro ⟨hrow, hp⟩
    refine ⟨hrow, fun other hother hpo hid => ?_⟩
    rw [h.eq_of_id hother hrow hid, hp] at hpo
    cases hpo

theorem deleteIds_valid (h : index.Valid) (ids : List Nat) : (deleteIds index ids).Valid where
  paths := h.paths.sublist (List.filter_sublist.map _)
  ids := h.ids.sublist (List.filter_sublist.map _)
  idBound row hrow := h.idBound row (List.mem_filter.mp hrow).1
  generationBound row hrow := h.generationBound row (List.mem_filter.mp hrow).1

theorem hasContent_deleteIds {ids : List Nat} {row : FileRow}
    (hrow : row ∈ (deleteIds index ids).files) :
    (deleteIds index ids).hasContent row.id = index.hasContent row.id := by
  have hid : row.id ∉ ids := by simpa using (List.mem_filter.mp hrow).2
  rw [Bool.eq_iff_iff, hasContent_iff, hasContent_iff]
  constructor
  · rintro ⟨c, hc, hcid⟩
    exact ⟨c, (List.mem_filter.mp hc).1, hcid⟩
  · rintro ⟨c, hc, hcid⟩
    refine ⟨c, List.mem_filter.mpr ⟨hc, ?_⟩, hcid⟩
    rw [hcid]
    simpa using hid

theorem mem_cleanupGeneration (h : index.Valid) {rootId path : String} {generation : Nat}
    {row : FileRow} :
    row ∈ (cleanupGeneration index rootId path generation).2.files ↔
      row ∈ index.files ∧ ¬ (row.rootId = rootId ∧ atOrBelow path row.path ∧
        row.scanGeneration ≠ some generation) := by
  rw [cleanupGeneration, selectedIds, mem_deleteIds h]
  simp

end

end Zos.Indexer
