import Zos.Indexer.TextVersions
import Zos.Proofs.IndexTables

/-!
# Whether the text is of the version that was checked

The shortcut for unchanged files trusts the identity in the row, and that identity is written by
two statements: `publish_file`, together with the text of the version, and
`record_extraction_error`, which leaves the text of an older version where it is. A task that
retries a version whose extraction has failed therefore ends with `Ok` on the old text. A version
that has not failed can only have been published.

`Base` follows the row through all that can happen to the file, `Progress` says what the task in
hand knows about it.
-/

namespace Zos.Indexer.TextVersions

variable {rootId path : String} {s s' : State}

theorem mem_rowsAt {index : Index} {row : FileRow} :
    row ∈ rowsAt rootId path index ↔ row ∈ index.files ∧ row.isAt rootId path := by
  simp [rowsAt]

/-! ## What is kept about the row -/

structure Base (rootId path : String) (s : State) : Prop where
  valid : s.index.Valid
  /-- A version in the row has failed, or the text is its own. -/
  noted : ∀ row ∈ rowsAt rootId path s.index, ∀ i, row.identity = some i →
    i ∈ s.failures ∨ s.index.hasContent row.id = true ∧ s.source = some i

def Seen (path : String) (s : State) (identity : FileIdentity) : Prop :=
  s.changed = false → version s.root path = some identity

/-- The row has text and this identity. -/
def Matches (rootId path : String) (s : State) (identity : FileIdentity) : Prop :=
  ∃ row ∈ rowsAt rootId path s.index,
    row.identity = some identity ∧ s.index.hasContent row.id = true

def FileProgress (rootId path : String) (s : State) (c : FileContext) : FilePc → Prop
  | .fresh => True
  | .opened i | .extracting i | .publishing i _ => Seen path s i
  | .matched i => Seen path s i ∧ Matches rootId path s i
  | .touching i g => Seen path s i ∧ Matches rootId path s i ∧ c.generation = some g
  | .erring i _ => i ∈ s.failures

/-- The claim is for the root, and its generation has been drawn. -/
def ClaimOk (rootId : String) (s : State) (claim : Claim) : Prop :=
  claim.context.rootId = rootId ∧
    ∀ g, claim.context.generation = some g → g < s.index.nextId

def Progress (rootId path : String) (s : State) : Prop :=
  match s.pc with
  | .idle => True
  | .claimed claim => ClaimOk rootId s claim
  | .file claim pc => ClaimOk rootId s claim ∧ FileProgress rootId path s claim.context pc
  | .dealt claim => ClaimOk rootId s claim ∧ ∃ i, Seen path s i ∧
      ∃ row ∈ rowsAt rootId path s.index, row.identity = some i ∧
        s.index.hasContent row.id = true ∧
        ∀ g, claim.context.generation = some g → row.scanGeneration = some g
  | .passed claim => ClaimOk rootId s claim ∧ (s.changed = false → version s.root path = none)
  | .finished => ∀ i, s.changed = false → version s.root path = some i → Matches rootId path s i

/-! ## The tree changes, or the index elsewhere -/

/-- A step that leaves the row alone. If the file is still as it was when the task was claimed, it
was before the step. -/
structure Frame (rootId path : String) (s s' : State) : Prop where
  source : s'.source = s.source
  failures : s.failures ⊆ s'.failures
  valid : s'.index.Valid
  rows : rowsAt rootId path s'.index = rowsAt rootId path s.index
  content : ∀ row ∈ rowsAt rootId path s.index,
    s'.index.hasContent row.id = s.index.hasContent row.id
  nextId : s.index.nextId ≤ s'.index.nextId
  follows : s'.changed = false →
    s.changed = false ∧ version s'.root path = version s.root path

theorem Base.frame (h : Base rootId path s) (hf : Frame rootId path s s') :
    Base rootId path s' where
  valid := hf.valid
  noted row hrow i hi := by
    rw [hf.rows] at hrow
    rw [hf.source, hf.content row hrow]
    exact (h.noted row hrow i hi).imp_left fun hfailed => hf.failures hfailed

theorem Seen.frame {i : FileIdentity} (h : Seen path s i) (hf : Frame rootId path s s') :
    Seen path s' i := fun hsame => (hf.follows hsame).2.trans (h (hf.follows hsame).1)

theorem Matches.frame {i : FileIdentity} (h : Matches rootId path s i)
    (hf : Frame rootId path s s') : Matches rootId path s' i := by
  obtain ⟨row, hrow, hidentity, hcontent⟩ := h
  exact ⟨row, hf.rows ▸ hrow, hidentity, (hf.content row hrow).trans hcontent⟩

theorem ClaimOk.frame {claim : Claim} (h : ClaimOk rootId s claim)
    (hf : Frame rootId path s s') : ClaimOk rootId s' claim :=
  ⟨h.1, fun g hg => (h.2 g hg).trans_le hf.nextId⟩

theorem FileProgress.frame {c : FileContext} {pc : FilePc} (h : FileProgress rootId path s c pc)
    (hf : Frame rootId path s s') : FileProgress rootId path s' c pc := by
  cases pc with
  | fresh => trivial
  | opened i | extracting i | publishing i extracted => exact Seen.frame h hf
  | matched i => exact ⟨h.1.frame hf, h.2.frame hf⟩
  | touching i g => exact ⟨h.1.frame hf, h.2.1.frame hf, h.2.2⟩
  | erring i error => exact hf.failures h

theorem Progress.frame (h : Progress rootId path s) (hf : Frame rootId path s s')
    (hpc : s'.pc = s.pc) : Progress rootId path s' := by
  unfold Progress at *
  rw [hpc]
  split at h
  · trivial
  · exact h.frame hf
  · exact ⟨h.1.frame hf, h.2.frame hf⟩
  · obtain ⟨hclaim, i, hseen, row, hrow, hidentity, hcontent, hstamp⟩ := h
    exact ⟨hclaim.frame hf, i, hseen.frame hf, row, hf.rows ▸ hrow, hidentity,
      (hf.content row hrow).trans hcontent, hstamp⟩
  · exact ⟨h.1.frame hf, fun hsame => (hf.follows hsame).2.trans (h.2 (hf.follows hsame).1)⟩
  · intro i hsame hnow
    obtain ⟨hold, heq⟩ := hf.follows hsame
    exact (h i hold (heq ▸ hnow)).frame hf

/-! ## The row is deleted, or gets a text of no known version -/

theorem Base.delete (h : Base rootId path s) (ids : List Nat) :
    Base rootId path (s.delete rootId path (deleteIds s.index ids)) := by
  refine ⟨deleteIds_valid h.valid ids, fun row hrow i hi => ?_⟩
  obtain ⟨hmem, hat⟩ := mem_rowsAt.mp hrow
  have hold : row ∈ rowsAt rootId path s.index :=
    mem_rowsAt.mpr ⟨(List.mem_filter.mp hmem).1, hat⟩
  have hfind : ((deleteIds s.index ids).find rootId path).isSome = true :=
    List.find?_isSome.mpr ⟨row, hmem, decide_eq_true hat⟩
  refine (h.noted row hold i hi).imp_right fun ⟨hcontent, hsource⟩ => ?_
  exact ⟨(hasContent_deleteIds hmem).trans hcontent, (if_pos hfind).trans hsource⟩

theorem Base.copyLegacy (h : Base rootId path s) (body : String) :
    Base rootId path (s.copyLegacy rootId path body) := by
  unfold State.copyLegacy
  split
  · next found hfind =>
      split
      · exact h
      · next hempty =>
          refine ⟨⟨h.valid.paths, h.valid.ids, h.valid.idBound, h.valid.generationBound⟩,
            fun row hrow i hi => .inl ?_⟩
          -- a row without text has no version, or one that has failed
          obtain ⟨hmem, hat⟩ := mem_rowsAt.mp hrow
          obtain ⟨hfound, hfoundAt⟩ := mem_of_find hfind
          rw [h.valid.eq_of_isAt hfound hmem hfoundAt hat] at hempty
          exact (h.noted row hrow i hi).resolve_right fun hcontent => hempty hcontent.1
  · exact h

theorem Base.finish (h : Base rootId path s) (claim : Claim) (remove : Bool) :
    Base rootId path (s.finish rootId path claim remove) := by
  unfold State.finish
  split
  · exact h.delete _
  · split
    · exact h.delete _
    · exact h

/-- The cleanup keeps the row that the task has stamped. -/
theorem matches_finish {claim : Claim} {i : FileIdentity} {row : FileRow}
    (hvalid : s.index.Valid) (hrow : row ∈ rowsAt rootId path s.index)
    (hidentity : row.identity = some i) (hcontent : s.index.hasContent row.id = true)
    (hstamp : ∀ g, claim.context.generation = some g → row.scanGeneration = some g) :
    Matches rootId path (s.finish rootId path claim false) i := by
  unfold State.finish
  split
  · next g hg =>
      obtain ⟨hmem, hat⟩ := mem_rowsAt.mp hrow
      have hkept : row ∈ (cleanupGeneration s.index rootId claim.target g).2.files :=
        (mem_cleanupGeneration hvalid).mpr ⟨hmem, fun hgone => hgone.2.2 (hstamp g hg)⟩
      exact ⟨row, mem_rowsAt.mpr ⟨hkept, hat⟩, hidentity,
        (hasContent_deleteIds hkept).trans hcontent⟩
  · exact ⟨row, hrow, hidentity, hcontent⟩

@[simp]
theorem finish_root {claim : Claim} {remove : Bool} :
    (s.finish rootId path claim remove).root = s.root := by
  unfold State.finish State.delete
  split
  · rfl
  · split <;> rfl

@[simp]
theorem finish_changed {claim : Claim} {remove : Bool} :
    (s.finish rootId path claim remove).changed = s.changed := by
  unfold State.finish State.delete
  split
  · rfl
  · split <;> rfl

@[simp]
theorem copyLegacy_pc {body : String} : (s.copyLegacy rootId path body).pc = s.pc := by
  unfold State.copyLegacy
  split
  · split <;> rfl
  · rfl

/-! ## The file is processed -/

/-- The index and the tree are as they were. -/
theorem Base.goto (h : Base rootId path s) (pc : Pc) : Base rootId path { s with pc := pc } :=
  ⟨h.valid, h.noted⟩

theorem Base.touch (h : Base rootId path s) {g : Nat} (hg : g < s.index.nextId) :
    Base rootId path { s with index := touchGeneration s.index rootId path g } := by
  refine ⟨touchGeneration_valid h.valid hg, fun row' hrow' => ?_⟩
  obtain ⟨hmem, hat⟩ := mem_rowsAt.mp hrow'
  rcases mem_touchGeneration.mp hmem with ⟨hno, -⟩ | ⟨row, hrow, hold, rfl⟩
  · exact absurd hat hno
  · exact h.noted row (mem_rowsAt.mpr ⟨hrow, hold⟩)

/-- A publication: the text is of the version in the record. -/
theorem Base.publish (h : Base rootId path s) (record : IndexedFileRecord)
    (extracted : ExtractedFile) (hroot : record.rootId = rootId) (hpath : record.path = path)
    (hgen : ∀ g, record.scanGeneration = some g → g < s.index.nextId) :
    Base rootId path { s with
      index := publishFile s.index record extracted, source := some record.identity } := by
  subst hroot hpath
  refine ⟨publishFile_valid h.valid hgen, fun row hrow i hi => .inr ?_⟩
  obtain ⟨hfile, hat⟩ := mem_rowsAt.mp hrow
  exact ⟨hasContent_publishFile.mpr (.inl (publishedId_of_mem h.valid hfile hat)),
    (upsertFile_written hfile hat).1.symm.trans hi⟩

/-- An error: the text stays, and the version in the record has failed. -/
theorem Base.record (h : Base rootId path s) (record : IndexedFileRecord) (error : IndexerError)
    (hroot : record.rootId = rootId) (hpath : record.path = path)
    (hgen : ∀ g, record.scanGeneration = some g → g < s.index.nextId)
    (hfailed : record.identity ∈ s.failures) :
    Base rootId path { s with index := recordExtractionError s.index record error } := by
  subst hroot hpath
  refine ⟨upsertFile_valid h.valid hgen, fun row hrow i hi => .inl ?_⟩
  obtain ⟨hfile, hat⟩ := mem_rowsAt.mp hrow
  cases (upsertFile_written hfile hat).1.symm.trans hi
  exact hfailed

/-- The version that has failed is noted. -/
theorem frame_failures (hvalid : s.index.Valid) (pc : FilePc) (move : FileMove) :
    Frame rootId path s { s with failures := failuresAfter s.failures pc move } := by
  refine ⟨rfl, ?_, hvalid, rfl, fun _ _ => rfl, le_rfl, fun hsame => ⟨hsame, rfl⟩⟩
  unfold failuresAfter
  split
  · exact List.subset_cons_self ..
  · exact List.Subset.refl _

/-- A future that goes on has written nothing. -/
theorem processFile_more {claim : Claim} {pc pc' : FilePc} {move : FileMove} {index : Index}
    (hclaim : ClaimOk rootId s claim) (hfile : FileProgress rootId path s claim.context pc)
    (h : processFile s.root s.index claim.context path pc move = some (index, .more pc')) :
    index = s.index ∧ FileProgress rootId path
      { s with failures := failuresAfter s.failures pc move } claim.context pc' := by
  unfold processFile at h
  split at h
  · split at h <;> cases h
    next i hopen => exact ⟨rfl, fun _ => by rw [version, hopen]; rfl⟩
  · split at h
    · next existing hexisting =>
        obtain ⟨row, hrow, hat, hidentity, hcontent⟩ := existingFile_row hexisting
        rw [hclaim.1] at hat
        split at h
        · next hmatch =>
            cases h
            exact ⟨rfl, hfile, row, mem_rowsAt.mpr ⟨hrow, hat⟩, hidentity.trans hmatch.1,
              hcontent.trans hmatch.2⟩
        · cases h
          exact ⟨rfl, hfile⟩
    · cases h
      exact ⟨rfl, hfile⟩
  · split at h
    · split at h <;> cases h
      next hgeneration => exact ⟨rfl, hfile.1, hfile.2, hgeneration⟩
    · cases h
  · cases h
  · split at h
    · cases h
    · split at h
      · cases h
        exact ⟨rfl, List.mem_cons_self⟩
      · split at h <;> cases h
        exact ⟨rfl, hfile⟩
  · cases h
  · cases h
  · cases h
  · cases h

/-- A future that ends without a failure leaves a row with the version it has opened. -/
theorem processFile_done {claim : Claim} {pc : FilePc} {move : FileMove} {index : Index}
    {outcome : FileOutcome} (hbase : Base rootId path s) (hclaim : ClaimOk rootId s claim)
    (hfile : FileProgress rootId path s claim.context pc)
    (h : processFile s.root s.index claim.context path pc move = some (index, .done outcome)) :
    Base rootId path { s with index := index, source := sourceAfter s.source pc move } ∧
      s.index.nextId ≤ index.nextId ∧
      (outcome.failure = none → ∃ i, Seen path s i ∧ ∃ row ∈ rowsAt rootId path index,
        row.identity = some i ∧ index.hasContent row.id = true ∧
        ∀ g, claim.context.generation = some g → row.scanGeneration = some g) := by
  obtain ⟨hroot, hgen⟩ := hclaim
  unfold processFile at h
  split at h
  · split at h <;> cases h
    exact ⟨hbase, le_rfl, nofun⟩
  · split at h
    · split at h <;> cases h
    · cases h
  · next i =>
      split at h
      · split at h <;> cases h
        next hnone =>
          obtain ⟨hseen, row, hrow, hidentity, hcontent⟩ := hfile
          refine ⟨hbase, le_rfl, fun _ => ⟨i, hseen, row, hrow, hidentity, hcontent, ?_⟩⟩
          rw [hnone]
          exact nofun
      · cases h
        exact ⟨hbase, le_rfl, nofun⟩
  · next i g =>
      cases h
      obtain ⟨hseen, ⟨row, hrow, hidentity, hcontent⟩, hgeneration⟩ := hfile
      obtain ⟨hmem, hat⟩ := mem_rowsAt.mp hrow
      rw [hroot]
      refine ⟨hbase.touch (hgen g hgeneration), le_rfl, fun _ => ⟨i, hseen,
        { row with scanGeneration := some g }, mem_rowsAt.mpr
          ⟨mem_touchGeneration.mpr (.inr ⟨row, hmem, hat, rfl⟩), hat⟩, hidentity, hcontent, ?_⟩⟩
      intro g' hg'
      exact (hgeneration.symm.trans hg')
  · split at h
    · cases h
      exact ⟨hbase, le_rfl, nofun⟩
    · split at h
      · cases h
      · split at h <;> cases h
        exact ⟨hbase, le_rfl, nofun⟩
  · next i extracted =>
      cases h
      refine ⟨hbase.publish (claim.context.record path i) extracted hroot rfl hgen,
        upsertFile_nextId, fun _ => ⟨i, hfile, ?_⟩⟩
      obtain ⟨row, hrow, hat, hidentity, hcontent, hstamp⟩ :=
        publishFile_row (claim.context.record path i) extracted hbase.valid
      exact ⟨row, mem_rowsAt.mpr ⟨hrow, hroot ▸ hat⟩, hidentity, hcontent, hstamp⟩
  · next i error =>
      cases h
      exact ⟨hbase.record (claim.context.record path i) error hroot rfl hgen hfile,
        upsertFile_nextId, nofun⟩
  · cases h
    refine ⟨?_, le_rfl, nofun⟩
    cases pc <;> exact hbase
  · cases h

/-! ## Whole runs -/

def Inv (rootId path : String) (s : State) : Prop :=
  Base rootId path s ∧ Progress rootId path s

theorem frame_of_index {index : Index} (hvalid : index.Valid)
    (hrows : rowsAt rootId path index = rowsAt rootId path s.index)
    (hcontent : ∀ row ∈ rowsAt rootId path s.index,
      index.hasContent row.id = s.index.hasContent row.id)
    (hnext : s.index.nextId ≤ index.nextId) : Frame rootId path s { s with index := index } :=
  ⟨rfl, fun _ h => h, hvalid, hrows, hcontent, hnext, fun hsame => ⟨hsame, rfl⟩⟩

theorem inv_step {action : Action} (h : Inv rootId path s)
    (hstep : step rootId path s action = some s') : Inv rootId path s' := by
  obtain ⟨hbase, hprogress⟩ := h
  cases action with
  | change root =>
      cases hstep
      have hf : Frame rootId path s { s with
          root := root, changed := s.changed || version root path ≠ version s.root path } :=
        ⟨rfl, fun _ h => h, hbase.valid, rfl, fun _ _ => rfl, le_rfl, fun hsame => by
          simpa using hsame⟩
      exact ⟨hbase.frame hf, hprogress.frame hf rfl⟩
  | claim storagePoolId target recursive isDirectory =>
      simp only [step] at hstep
      have hclaimed {identity : FileIdentity} : Inv rootId path { s with
          index := { s.index with nextId := s.index.nextId + 1 }
          pc := .claimed ⟨⟨rootId, storagePoolId, identity,
            if recursive && isDirectory then some s.index.nextId else none⟩, target, recursive⟩
          changed := false } := by
        refine ⟨⟨hbase.valid.draw, hbase.noted⟩, rfl, fun g hg => ?_⟩
        split at hg <;> cases hg
        exact Nat.lt_succ_self _
      split at hstep
      · split at hstep <;> cases hstep
        exact hclaimed
      · split at hstep <;> cases hstep
        exact hclaimed
      · cases hstep
  | meet =>
      simp only [step] at hstep
      split at hstep
      · next claim _ hpc _ =>
          cases hstep
          rw [Progress, hpc] at hprogress
          exact ⟨hbase.goto _, hprogress, trivial⟩
      · cases hstep
  | pass =>
      simp only [step] at hstep
      split at hstep
      · next claim hpc hnone =>
          cases hstep
          rw [Progress, hpc] at hprogress
          exact ⟨hbase.goto _, hprogress, fun _ => hnone⟩
      · cases hstep
  | file move =>
      simp only [step] at hstep
      split at hstep
      · next claim pc hpc =>
          rw [Progress, hpc] at hprogress
          obtain ⟨hclaim, hfile⟩ := hprogress
          have hf : Frame rootId path s _ := frame_failures hbase.valid pc move
          split at hstep
          · next hprocess =>
              cases hstep
              obtain ⟨rfl, hmore⟩ := processFile_more hclaim hfile hprocess
              exact ⟨(hbase.frame hf).goto _, hclaim, hmore⟩
          · next index outcome hprocess =>
              cases hstep
              obtain ⟨hdone, hnext, hrow⟩ := processFile_done hbase hclaim hfile hprocess
              refine ⟨(hdone.frame (frame_failures hdone.valid pc move)).goto _, ?_⟩
              cases hfailure : outcome.failure with
              | some failure => trivial
              | none => exact ⟨⟨hclaim.1, fun g hg => (hclaim.2 g hg).trans_le hnext⟩,
                  hrow hfailure⟩
          · cases hstep
      · cases hstep
  | elsewhere index valid =>
      simp only [step] at hstep
      split at hstep
      · next hagrees =>
          cases hstep
          obtain ⟨hagrees, hnext⟩ := hagrees
          rw [agrees, Bool.and_eq_true, decide_eq_true_eq, List.all_eq_true] at hagrees
          have hf : Frame rootId path s { s with index := index } :=
            frame_of_index valid hagrees.1 (fun row hrow => by simpa using hagrees.2 row hrow)
              hnext
          exact ⟨hbase.frame hf, hprogress.frame hf rfl⟩
      · cases hstep
  | finish missing =>
      simp only [step] at hstep
      split at hstep
      · next claim hpc =>
          cases hstep
          rw [Progress, hpc] at hprogress
          obtain ⟨-, i, hseen, row, hrow, hidentity, hcontent, hstamp⟩ := hprogress
          refine ⟨(hbase.finish claim false).goto _, fun j hsame hnow => ?_⟩
          simp only [finish_root, finish_changed] at hsame hnow
          cases (hseen hsame).symm.trans hnow
          exact matches_finish hbase.valid hrow hidentity hcontent hstamp
      · next claim hpc =>
          cases hstep
          rw [Progress, hpc] at hprogress
          refine ⟨(hbase.finish claim missing).goto _, fun j hsame hnow => ?_⟩
          simp only [finish_root, finish_changed] at hsame hnow
          cases (hprogress.2 hsame).symm.trans hnow
      · cases hstep
  | abort =>
      cases hstep
      exact ⟨hbase.goto _, trivial⟩
  | copyLegacy body =>
      simp only [step] at hstep
      split at hstep
      · next hpc =>
          cases hstep
          refine ⟨hbase.copyLegacy body, ?_⟩
          rw [Progress, copyLegacy_pc, hpc]
          trivial
      · cases hstep

theorem inv_init (h : Init rootId path s) : Inv rootId path s := by
  refine ⟨⟨h.valid, fun row hrow i hi => ?_⟩, ?_⟩
  · cases (h.rows row hrow).symm.trans hi
  · rw [Progress, h.pc]
    trivial

/-- The text is of the current version, unless an extraction of this version has failed. -/
theorem text_of_current (rootId path : String) (c : Checked rootId path)
    (hextracted : c.current ∉ c.state.failures) : c.TextOfCurrent := by
  obtain ⟨hbase, hprogress⟩ :=
    c.reached.invariant (fun _ => inv_init) fun _ _ _ hs _ hstep => inv_step hs hstep
  rw [Progress, c.finished] at hprogress
  obtain ⟨row, hrow, hidentity, hcontent⟩ := hprogress c.current c.unchanged c.regular
  exact ⟨⟨row, hrow, hcontent⟩, ((hbase.noted row hrow c.current hidentity).resolve_left
    hextracted).2⟩

/-! ## A retry after a failed extraction -/

/-- A root with the file `a.pdf` in a version that was written at `time`. -/
def treeAt (time : Int) : Node :=
  .directory ⟨1, 1, 0, 0, 0⟩ [("a.pdf", .file ⟨1, 2, 10, time, time⟩)]

def emptyIndex : State where
  root := treeAt 1
  index := ⟨[], [], 0⟩
  source := none
  failures := []
  pc := .idle
  changed := false

theorem emptyIndex_init : Init "dev" "a.pdf" emptyIndex where
  valid := ⟨by decide, by decide, by decide, by simp [emptyIndex]⟩
  rows := by decide
  content := rfl
  source := rfl
  failures := rfl
  pc := rfl

/-- The file is found by a scan of its root. -/
def look : List Action := [.claim none "." true true, .meet, .file .next, .file .next]

/-- The first version is published, the second one cannot be extracted. -/
def failed : List Action :=
  look ++ [.file (.extracted (.ok ⟨.ready, "old"⟩)), .file .next, .finish false,
    .change (treeAt 2)] ++
  look ++ [.file (.extracted (.error (.new "EXTRACTION" "bad" true))), .file .next]

/-- What a run from an empty index comes to. -/
theorem exists_checked (actions : List Action) (current : FileIdentity)
    (source : Option FileIdentity) (failures : List FileIdentity)
    (h : ((Zos.Lib.run (step "dev" "a.pdf") emptyIndex actions).map fun s =>
      s.pc matches .finished && !s.changed && version s.root "a.pdf" = some current &&
        s.source = source && s.failures = failures) = some true) :
    ∃ c : Checked "dev" "a.pdf", c.current = current ∧ c.state.source = source ∧
      c.state.failures = failures := by
  obtain ⟨s, hrun, hs⟩ := Zos.Lib.exists_run (step "dev" "a.pdf") emptyIndex actions _ h
  simp only [Bool.and_eq_true, Bool.not_eq_true', decide_eq_true_eq] at hs
  obtain ⟨⟨⟨⟨hfinished, hunchanged⟩, hversion⟩, hsource⟩, hfailures⟩ := hs
  have hpc : s.pc = .finished := by
    revert hfinished
    cases s.pc <;> simp
  exact ⟨⟨s, .of_run (.init emptyIndex_init) (fun _ _ _ => trivial) hrun, hpc, hunchanged, current,
    hversion⟩, rfl, hsource, hfailures⟩

/-- A third version is extracted after the second one has failed. -/
theorem text_of_third : ∃ c : Checked "dev" "a.pdf",
    c.state.failures = [⟨1, 2, 10, 2, 2⟩] ∧ c.TextOfCurrent := by
  obtain ⟨c, hcurrent, -, hfailures⟩ := exists_checked
    (failed ++ [.change (treeAt 3)] ++ look ++
      [.file (.extracted (.ok ⟨.ready, "new"⟩)), .file .next, .finish false])
    ⟨1, 2, 10, 3, 3⟩ (some ⟨1, 2, 10, 3, 3⟩) [⟨1, 2, 10, 2, 2⟩] (by rfl)
  refine ⟨c, hfailures, text_of_current _ _ c ?_⟩
  rw [hcurrent, hfailures]
  decide

/-- The retry ends with `Ok`, and the text is that of the first version. -/
theorem retry_keeps_old_text : ∃ c : Checked "dev" "a.pdf", ¬ c.TextOfCurrent := by
  obtain ⟨c, hcurrent, hsource, -⟩ := exists_checked
    (failed ++ look ++ [.file .next, .file .next, .finish false])
    ⟨1, 2, 10, 2, 2⟩ (some ⟨1, 2, 10, 1, 1⟩) [⟨1, 2, 10, 2, 2⟩] (by rfl)
  refine ⟨c, ?_⟩
  rintro ⟨-, hnow⟩
  rw [hcurrent, hsource] at hnow
  cases hnow

end Zos.Indexer.TextVersions
