import Zos.Photostaff.Cache

/-!
# Publication of two derivatives

`publish_one` recognises the file it has renamed by the identity recorded before the rename, the
change time included. A rename that gives the file a new change time is therefore reported as a
changed source, on the first run and on every later one. Were the change time kept, publication
would complete from wherever it is cut off: each derivative is either still where it was made or
already at its target.
-/

namespace Zos.Photostaff

/-- The two temporary files are there as recorded, and nothing is at their targets. -/
structure Fresh (record : PublishRecord) (files : Purpose → CacheFile) (cache : Cache) : Prop where
  purpose : ∀ purpose, (record.derivative purpose).key.purpose = purpose
  identity : ∀ purpose, (files purpose).identity = (record.derivative purpose).identity
  source : ∀ purpose, cache (record.derivative purpose).source = some (files purpose)
  target : ∀ purpose, cache (record.derivative purpose).target = none

/-- Publication succeeds, also again after having been cut off anywhere, and replaces nothing. -/
structure Completes (record : PublishRecord) (files : Purpose → CacheFile) (cache : Cache)
    (first again : Purpose → Int) : Prop where
  succeeds : (publishDerivatives record first cache).2 = .done
  recovers : ∀ n, (publishDerivatives record again (publishAccesses record first n cache).1).2 =
    .done
  content : ∀ n purpose, ((publishDerivatives record again
    (publishAccesses record first n cache).1).1 (record.derivative purpose).target).map
      (·.content) = some (files purpose).content
  kept : ∀ (before : Cache) (purpose : Purpose) (file : CacheFile),
    before (record.derivative purpose).target = some file → ∀ ctimeNs n,
    (publishAccesses record ctimeNs n before).1 (record.derivative purpose).target = some file

variable {record : PublishRecord} {files : Purpose → CacheFile} {cache : Cache}
  {d : Derivative} {ctimeNs : Purpose → Int}

/-! ## Targets -/

theorem target_ne_source (d e : Derivative) : d.target ≠ e.source := nofun

/-- Only the two paths of the derivative are touched. -/
theorem publishOne_other {path : CachePath} (hsource : path ≠ d.source) (htarget : path ≠ d.target)
    (point : PublishPoint) (ctime : Int) :
    (publishOne cache d point ctime).1 path = cache path := by
  cases point with
  | check =>
      unfold publishOne
      dsimp only
      split
      · rfl
      · split
        · exact if_neg hsource
        · split <;> rfl
  | openSource =>
      unfold publishOne
      dsimp only
      split
      · rfl
      · split <;> rfl
  | rename =>
      unfold publishOne
      dsimp only
      split
      · rfl
      · split
        · rfl
        · exact (if_neg htarget).trans (if_neg hsource)
  | verify =>
      unfold publishOne
      dsimp only
      split <;> rfl

/-- A file that is not the temporary one stays as it is. -/
theorem publishOne_keeps {path : CachePath} {file : CacheFile} (hpath : path ≠ d.source)
    (h : cache path = some file) (point : PublishPoint) (ctime : Int) :
    (publishOne cache d point ctime).1 path = some file := by
  by_cases htarget : path = d.target
  · subst htarget
    have hremove : (cache.remove d.source) d.target = some file := (if_neg hpath).trans h
    cases point with
    | check =>
        simp only [publishOne, h, Option.isNone_some, Bool.false_eq_true, if_false]
        split
        · exact hremove
        · split <;> exact h
    | openSource =>
        unfold publishOne
        dsimp only
        split
        · exact h
        · split <;> exact h
    | rename => simp [publishOne, h]
    | verify =>
        unfold publishOne
        dsimp only
        split <;> exact h
  · exact (publishOne_other hpath htarget point ctime).trans h

theorem accesses_keep {path : CachePath} {file : CacheFile} {s : Cache × Publication} (n : Nat)
    (hpath : ∀ purpose, path ≠ (record.derivative purpose).source) (h : s.1 path = some file) :
    ((publishNext record ctimeNs)^[n] s).1 path = some file := by
  induction n generalizing s with
  | zero => exact h
  | succ n ih =>
      refine ih ?_
      obtain ⟨cache, publication⟩ := s
      cases publication with
      | running purpose point => exact publishOne_keeps (hpath purpose) h point _
      | done => exact h
      | failed retryable => exact h

/-! ## A derivative at one of its places -/

/-- The derivative is where it was made or at its target. -/
def Placed (files : Purpose → CacheFile) (record : PublishRecord) (cache : Cache)
    (purpose : Purpose) : Prop :=
  cache (record.derivative purpose).target = some (files purpose) ∨
  cache (record.derivative purpose).target = none ∧
    cache (record.derivative purpose).source = some (files purpose)

/-- A rename that leaves the change time leaves the file. -/
theorem renamed_eq {file : CacheFile} {ctime : Int} (h : ctime = file.identity.ctimeNs) :
    { file with identity := { file.identity with ctimeNs := ctime } } = file := by
  rw [h]

section Kept

variable (hpurpose : ∀ purpose, (record.derivative purpose).key.purpose = purpose)
  (hidentity : ∀ purpose, (files purpose).identity = (record.derivative purpose).identity)
  (hctime : ∀ purpose, ctimeNs purpose = (record.derivative purpose).identity.ctimeNs)

include hpurpose in
theorem keys_ne {purpose other : Purpose} (h : other ≠ purpose) :
    (record.derivative other).key ≠ (record.derivative purpose).key := by
  intro heq
  have hsame := congrArg Key.purpose heq
  rw [hpurpose, hpurpose] at hsame
  exact h hsame

include hpurpose hidentity hctime

/-- No access takes a derivative from its places. -/
theorem publishOne_placed (h : ∀ other, Placed files record cache other) (purpose : Purpose)
    (point : PublishPoint) (other : Purpose) :
    Placed files record
      (publishOne cache (record.derivative purpose) point (ctimeNs purpose)).1 other := by
  obtain htarget | ⟨htarget, hsource⟩ := h other
  · exact .inl (publishOne_keeps (target_ne_source _ _) htarget point _)
  · by_cases hother : other = purpose
    · subst hother
      have hnone : (cache (record.derivative other).target).isNone = true := by rw [htarget]; rfl
      have hsome : (cache (record.derivative other).target).isSome = false := by rw [htarget]; rfl
      cases point with
      | check =>
          rw [publishOne, if_pos hnone]
          exact h other
      | openSource =>
          simp only [publishOne, hsource]
          split <;> exact h other
      | rename =>
          simp only [publishOne, hsome, hsource]
          have hkept := renamed_eq ((hctime other).trans (congrArg _ (hidentity other).symm))
          exact .inl (by simp [Cache.write, hkept])
      | verify =>
          simp only [publishOne]
          split <;> exact h other
    · have hkey := keys_ne hpurpose hother
      refine .inr ⟨?_, ?_⟩
      · refine (publishOne_other ?_ ?_ point _).trans htarget
        · simp [Derivative.source, Derivative.target]
        · simpa [Derivative.target] using hkey
      · refine (publishOne_other ?_ ?_ point _).trans hsource
        · simp [Derivative.source, hkey]
        · simp [Derivative.source, Derivative.target]

theorem accesses_placed {s : Cache × Publication} (n : Nat)
    (h : ∀ other, Placed files record s.1 other) :
    ∀ other, Placed files record ((publishNext record ctimeNs)^[n] s).1 other := by
  induction n generalizing s with
  | zero => exact h
  | succ n ih =>
      refine ih fun other => ?_
      obtain ⟨cache, publication⟩ := s
      cases publication with
      | running purpose point =>
          exact publishOne_placed hpurpose hidentity hctime h purpose point other
      | done => exact h other
      | failed retryable => exact h other

end Kept

/-! ## The accesses for one derivative -/

section One

variable {purpose : Purpose}

/-- After the rename. -/
def Cache.renamed (cache : Cache) (d : Derivative) (file : CacheFile) (ctime : Int) : Cache :=
  (cache.remove d.source).write d.target
    { file with identity := { file.identity with ctimeNs := ctime } }

theorem targetMatches_renamed {file : CacheFile} {ctime : Int}
    (h : file.identity = d.identity) :
    targetMatches (cache.renamed d file ctime) d = decide (ctime = d.identity.ctimeNs) := by
  have hmatch : targetMatches (cache.renamed d file ctime) d =
      decide ({ d.identity with ctimeNs := ctime } = d.identity) := by
    simp [targetMatches, Cache.renamed, Cache.write, h]
  rw [hmatch, decide_eq_decide, FileIdentity.mk.injEq]
  simp

/-- All four accesses, when the derivative has not been renamed yet. -/
theorem four_accesses (ctimeNs : Purpose → Int) {file : CacheFile}
    (htarget : cache (record.derivative purpose).target = none)
    (hsource : cache (record.derivative purpose).source = some file)
    (hidentity : file.identity = (record.derivative purpose).identity) :
    (publishNext record ctimeNs)^[4] (cache, .running purpose .check) =
      (cache.renamed (record.derivative purpose) file (ctimeNs purpose),
        .after purpose (if ctimeNs purpose = (record.derivative purpose).identity.ctimeNs
          then .ok else .error false)) := by
  have hcheck : publishNext record ctimeNs (cache, .running purpose .check) =
      (cache, .running purpose .openSource) := by
    simp [publishNext, publishOne, htarget, Publication.after]
  have hopen : publishNext record ctimeNs (cache, .running purpose .openSource) =
      (cache, .running purpose .rename) := by
    simp [publishNext, publishOne, hsource, hidentity, Publication.after]
  let renamed := cache.renamed (record.derivative purpose) file (ctimeNs purpose)
  have hrename : publishNext record ctimeNs (cache, .running purpose .rename) =
      (renamed, .running purpose .verify) := by
    simp [renamed, Cache.renamed, publishNext, publishOne, htarget, hsource, Publication.after]
  have hverify : publishOne renamed (record.derivative purpose) .verify (ctimeNs purpose) =
      (renamed, if ctimeNs purpose = (record.derivative purpose).identity.ctimeNs
        then .ok else .error false) := by
    simp only [publishOne, renamed, targetMatches_renamed hidentity, decide_eq_true_eq]
    split <;> rfl
  rw [Function.iterate_succ_apply, hcheck, Function.iterate_succ_apply, hopen,
    Function.iterate_succ_apply, hrename, Function.iterate_succ_apply, Function.iterate_zero_apply,
    publishNext, hverify]

end One

/-! ## Whole runs -/

section Runs

variable {first again : Purpose → Int}

theorem settled_accesses {s : Cache × Publication} (h : s.2 = .done ∨ s.2 = .failed false)
    (n : Nat) : (publishNext record ctimeNs)^[n] s = s := by
  refine Function.iterate_fixed ?_ n
  obtain ⟨cache, publication⟩ := s
  obtain rfl | rfl := h <;> rfl

section Kept

variable (hidentity : ∀ purpose, (files purpose).identity = (record.derivative purpose).identity)
  (hctime : ∀ purpose, ctimeNs purpose = (record.derivative purpose).identity.ctimeNs)

include hidentity hctime

/-- One derivative is dealt with in at most four accesses. -/
theorem one_done {purpose : Purpose} (h : Placed files record cache purpose) : ∃ n ≤ 4, ∃ cache',
    (publishNext record ctimeNs)^[n] (cache, .running purpose .check) =
      (cache', .after purpose .ok) ∧
    cache' (record.derivative purpose).target = some (files purpose) := by
  obtain htarget | ⟨htarget, hsource⟩ := h
  · refine ⟨1, by omega, cache.remove (record.derivative purpose).source, ?_, ?_⟩
    · simp [publishNext, publishOne, targetMatches, htarget, hidentity purpose]
    · exact (if_neg (by simp [Derivative.source, Derivative.target])).trans htarget
  · have hfour := four_accesses ctimeNs htarget hsource (hidentity purpose)
    rw [if_pos (hctime purpose)] at hfour
    refine ⟨4, Nat.le_refl 4, _, hfour, ?_⟩
    have hkept := renamed_eq ((hctime purpose).trans (congrArg _ (hidentity purpose).symm))
    simp [Cache.renamed, Cache.write, hkept]

/-- From derivatives at their places, publication ends well within its accesses. -/
theorem publishDerivatives_done
    (hpurpose : ∀ purpose, (record.derivative purpose).key.purpose = purpose)
    (h : ∀ purpose, Placed files record cache purpose) :
    (publishDerivatives record ctimeNs cache).2 = .done ∧ ∀ purpose,
      (publishDerivatives record ctimeNs cache).1 (record.derivative purpose).target =
        some (files purpose) := by
  obtain ⟨n, hn, cache₁, hthumbnail, htarget⟩ := one_done hidentity hctime (h .thumbnail)
  have hplaced := accesses_placed hpurpose hidentity hctime
    (s := (cache, .running .thumbnail .check)) n h .preview
  rw [hthumbnail] at hplaced
  obtain ⟨m, hm, cache₂, hpreview, htarget'⟩ := one_done hidentity hctime hplaced
  have hkept : cache₂ (record.derivative .thumbnail).target = some (files .thumbnail) := by
    have hkeep : ((publishNext record ctimeNs)^[m] (cache₁, .running .preview .check)).1 _ = _ :=
      accesses_keep m (fun _ => target_ne_source _ _) htarget
    rwa [hpreview] at hkeep
  obtain ⟨rest, hrest⟩ : ∃ rest, 8 = rest + (m + n) := ⟨8 - (m + n), by omega⟩
  have hall : publishDerivatives record ctimeNs cache = (cache₂, .done) := by
    rw [publishDerivatives, publishAccesses, hrest, Function.iterate_add_apply _ rest,
      Function.iterate_add_apply _ m, hthumbnail, Publication.after, hpreview, Publication.after,
      settled_accesses (.inl rfl)]
  rw [hall]
  refine ⟨rfl, fun purpose => ?_⟩
  cases purpose with
  | thumbnail => exact hkept
  | preview => exact htarget'

end Kept

/-- From a fresh record, publication ends well only if the change times are kept. -/
theorem fresh_done_iff (h : Fresh record files cache) :
    (publishDerivatives record ctimeNs cache).2 = .done ↔
      ∀ purpose, ctimeNs purpose = (record.derivative purpose).identity.ctimeNs := by
  have hplaced (purpose : Purpose) : Placed files record cache purpose :=
    .inr ⟨h.target purpose, h.source purpose⟩
  refine ⟨fun hdone => ?_, fun hctime => ?_⟩
  · rw [publishDerivatives, publishAccesses, Function.iterate_add_apply _ 4 4,
      four_accesses ctimeNs (h.target _) (h.source _) (h.identity _)] at hdone
    by_cases hthumbnail : ctimeNs .thumbnail = (record.derivative .thumbnail).identity.ctimeNs
    · have hkey : (record.derivative .preview).key ≠ (record.derivative .thumbnail).key :=
        keys_ne h.purpose nofun
      rw [if_pos hthumbnail, Publication.after, four_accesses ctimeNs ?_ ?_ (h.identity _)] at hdone
      · by_cases hpreview : ctimeNs .preview = (record.derivative .preview).identity.ctimeNs
        · exact fun purpose => by cases purpose <;> assumption
        · rw [if_neg hpreview] at hdone
          cases hdone
      · simpa [Cache.renamed, Cache.write, Cache.remove, Derivative.target, Derivative.source, hkey]
          using h.target .preview
      · simpa [Cache.renamed, Cache.write, Cache.remove, Derivative.target, Derivative.source, hkey]
          using h.source .preview
    · rw [if_neg hthumbnail, settled_accesses (.inr rfl)] at hdone
      cases hdone
  · exact (publishDerivatives_done h.identity hctime h.purpose hplaced).1

/-- Publication completes, from wherever it is cut off, exactly if no rename sets another change
time than the recorded one. -/
theorem publication_completes_iff (h : Fresh record files cache) (first again : Purpose → Int) :
    Completes record files cache first again ↔ ∀ purpose,
      first purpose = (record.derivative purpose).identity.ctimeNs ∧
      again purpose = (record.derivative purpose).identity.ctimeNs := by
  constructor
  · intro hcompletes purpose
    exact ⟨(fresh_done_iff h).mp hcompletes.succeeds purpose,
      (fresh_done_iff h).mp (hcompletes.recovers 0) purpose⟩
  · intro hctime
    have hplaced (n : Nat) : ∀ purpose,
        Placed files record (publishAccesses record first n cache).1 purpose :=
      accesses_placed h.purpose h.identity (fun purpose => (hctime purpose).1) n
        fun purpose => .inr ⟨h.target purpose, h.source purpose⟩
    have hagain (purpose : Purpose) := (hctime purpose).2
    refine ⟨(fresh_done_iff h).mpr fun purpose => (hctime purpose).1,
      fun n => (publishDerivatives_done h.identity hagain h.purpose (hplaced n)).1, ?_, ?_⟩
    · intro n purpose
      rw [(publishDerivatives_done h.identity hagain h.purpose (hplaced n)).2 purpose]
      rfl
    · exact fun before purpose file htarget ctimeNs n =>
        accesses_keep n (fun _ => target_ne_source _ _) htarget

/-- A record with its temporary files, which were last changed at time 5. -/
def sampleRecord : PublishRecord where
  operationId := 1
  jobId := 1
  location := ⟨"root", "pool", "photos/a.jpg"⟩
  libraryUpdatedAt := 1
  scanGeneration := 1
  source := ⟨1, 1, 1, 1, 1⟩
  sidecar := none
  thumbnail := ⟨⟨.thumbnail, 7⟩, 2, ⟨1, 2, 3, 5, 5⟩⟩
  preview := ⟨⟨.preview, 7⟩, 3, ⟨1, 3, 3, 5, 5⟩⟩

def sampleFiles (purpose : Purpose) : CacheFile := ⟨(sampleRecord.derivative purpose).identity, [1]⟩

def sampleCache : Cache :=
  (Cache.empty.write sampleRecord.thumbnail.source (sampleFiles .thumbnail)).write
    sampleRecord.preview.source (sampleFiles .preview)

theorem sampleFresh : Fresh sampleRecord sampleFiles sampleCache := by
  constructor <;> intro purpose <;> cases purpose <;> rfl

theorem publication_completes_kept :
    Completes sampleRecord sampleFiles sampleCache (fun _ => 5) (fun _ => 5) := by
  rw [publication_completes_iff sampleFresh]
  intro purpose
  cases purpose <;> exact ⟨rfl, rfl⟩

/-- The renames happen later than the last change of the files. -/
theorem publication_never_completes :
    ∃ record files cache first again, Fresh record files cache ∧
      (∀ purpose, first purpose ≠ (record.derivative purpose).identity.ctimeNs) ∧
      ¬ Completes record files cache first again := by
  refine ⟨sampleRecord, sampleFiles, sampleCache, fun _ => 6, fun _ => 6, sampleFresh, ?_, ?_⟩
  · intro purpose
    cases purpose <;> decide
  · intro h
    exact absurd h.succeeds (by decide)

end Runs

end Zos.Photostaff
