import Mathlib.Data.List.Nodup
import Zos.Lib.Fallible
import Zos.Proofs.PathSpellings
import Zos.Web.Uploads

/-!
# Which uploads keep the shape of their folder

A normaliser answers with segments that are plain: without a backslash, and without a blank at an
end. A target that is the folder followed by the file's own path is therefore made of plain names
only. The other way round, segments that are plain pass a normaliser as they are, and so they pass
all three of them. Trimming the whole path first changes nothing that trimming the segments does
not.
-/

namespace Zos.Web.Uploads

open Zos.Indexer.Spelling
open Zos.Lib (whiteSpace validName_ofList bind_ok_iff exists_of_mem_mapM forall₂_of_mapM
  joinText joinText_append joinText_cons_cons joinText_singleton mapM_ok_of_forall
  mem_of_mem_splitOnP ok_of_mapM trimBy trimBy_trimBy)

variable {raw : Text} {drop : Drop}

/-! ## Trimming -/

theorem trim_cons {c : Char} (h : whiteSpace c) (text : Text) : trim (c :: text) = trim text := by
  rw [trim, trimBy, List.dropWhile_cons_of_pos h]
  rfl

theorem trim_concat {c : Char} (h : whiteSpace c) (text : Text) :
    trim (text ++ [c]) = trim text := by
  rw [trim, trimBy, List.dropWhile_append, trim, trimBy]
  split
  · next hempty =>
      rw [List.isEmpty_iff.mp hempty, List.dropWhile_cons_of_pos h]
      rfl
  · rw [List.rdropWhile_concat, if_pos h]

theorem trim_trim (text : Text) : trim (trim text) = trim text := trimBy_trimBy whiteSpace text

theorem splitOn_cons {c : Char} (h : c ≠ '/') (text : Text) :
    (c :: text).splitOn '/' = (text.splitOn '/').modifyHead (c :: ·) := by
  rw [List.splitOn, List.splitOnP_cons_eq_if_modifyHead, if_neg (by simpa using h)]
  rfl

theorem splitOn_concat {c : Char} (h : c ≠ '/') (text : Text) :
    ∃ front last, text.splitOn '/' = front ++ [last] ∧
      (text ++ [c]).splitOn '/' = front ++ [last ++ [c]] := by
  by_cases hslash : '/' ∈ text
  · obtain ⟨back, front, hreverse, hback⟩ :=
      List.eq_append_cons_of_mem (List.mem_reverse.mpr hslash)
    have htext : text = front.reverse ++ '/' :: back.reverse := by
      rw [← List.reverse_reverse text, hreverse]
      simp
    have hlast : '/' ∉ back.reverse := by simpa using hback
    have hlast' : '/' ∉ back.reverse ++ [c] := by simpa [hback] using Ne.symm h
    refine ⟨front.reverse.splitOn '/', back.reverse, ?_, ?_⟩
    · rw [htext, splitOn_append_slash, List.splitOn_eq_singleton hlast]
    · rw [htext, List.append_assoc, List.cons_append, splitOn_append_slash,
        List.splitOn_eq_singleton hlast']
  · have hconcat : '/' ∉ text ++ [c] := by simpa [hslash] using Ne.symm h
    exact ⟨[], text, List.splitOn_eq_singleton hslash, List.splitOn_eq_singleton hconcat⟩

theorem ne_slash_of_whiteSpace {c : Char} (h : whiteSpace c) : c ≠ '/' := by
  intro heq
  subst heq
  exact absurd h (by decide)

theorem map_trim_splitOn_dropWhile (text : Text) :
    ((text.dropWhile whiteSpace).splitOn '/').map trim = (text.splitOn '/').map trim := by
  induction text with
  | nil => rfl
  | cons c text ih =>
      rw [List.dropWhile_cons]
      split
      · next hblank =>
          rw [ih, splitOn_cons (ne_slash_of_whiteSpace hblank)]
          cases text.splitOn '/' with
          | nil => rfl
          | cons first rest => simp [trim_cons hblank]
      · rfl

theorem map_trim_splitOn_rdropWhile (text : Text) :
    ((text.rdropWhile whiteSpace).splitOn '/').map trim = (text.splitOn '/').map trim := by
  induction text using List.reverseRecOn with
  | nil => rfl
  | append_singleton text c ih =>
      rw [List.rdropWhile_concat]
      split
      · next hblank =>
          obtain ⟨front, last, htext, hconcat⟩ :=
            splitOn_concat (ne_slash_of_whiteSpace hblank) text
          rw [ih, hconcat, htext]
          simp [trim_concat hblank]
      · rfl

theorem cleanSegments_eq (raw : Text) :
    cleanSegments raw =
      (((slashes raw).splitOn '/').map trim).filter fun s => s ≠ [] ∧ s ≠ ['.'] := by
  rw [cleanSegments, trim, trimBy, map_trim_splitOn_rdropWhile, map_trim_splitOn_dropWhile]

/-! ## Clean segments -/

/-- What a normaliser lets through, `..` apart. -/
structure CleanName (name : Text) : Prop where
  nonempty : name ≠ []
  noSlash : '/' ∉ name
  notDot : name ≠ ['.']
  plain : Plain name

theorem cleanSegments_clean : ∀ s ∈ cleanSegments raw, CleanName s := by
  intro s hs
  rw [cleanSegments_eq] at hs
  obtain ⟨hmem, hkept⟩ := List.mem_filter.mp hs
  obtain ⟨piece, hpiece, rfl⟩ := List.mem_map.mp hmem
  have hkept := of_decide_eq_true hkept
  refine ⟨hkept.1, ?_, hkept.2, ?_, trim_trim piece⟩
  · intro hslash
    exact not_mem_of_mem_splitOn hpiece ((trim_sublist piece).subset hslash)
  · intro hback
    exact not_mem_slashes raw (mem_of_mem_splitOnP hpiece ((trim_sublist piece).subset hback))

/-- A path whose names are plain keeps them. -/
theorem cleanSegments_of_plain (h : ∀ name ∈ names raw, Plain name) :
    cleanSegments raw = names raw := by
  have hback : '\\' ∉ raw := by
    have hsum := sum_countP_names (p := (· == '\\')) rfl rfl raw
    have hzero : ((names raw).map (List.countP (· == '\\'))).sum = 0 := by
      rw [List.sum_eq_zero_iff_forall_eq_nat]
      intro n hn
      obtain ⟨name, hname, rfl⟩ := List.mem_map.mp hn
      rw [List.countP_eq_zero]
      intro c hc heq
      exact (h name hname).1 (eq_of_beq heq ▸ hc)
    rw [hzero, eq_comm, List.countP_eq_zero] at hsum
    intro hmem
    exact hsum _ hmem rfl
  have htrim : (raw.splitOn '/').map trim = raw.splitOn '/' := by
    refine (List.map_congr_left fun s hs => ?_).trans (List.map_id' _)
    by_cases hname : s ∈ names raw
    · exact (h s hname).2
    · have hempty : s = [] ∨ s = ['.'] := by
        by_contra hne
        exact hname (List.mem_filter.mpr ⟨hs, decide_eq_true (not_or.mp hne)⟩)
      rcases hempty with rfl | rfl <;> decide
  rw [cleanSegments_eq, slashes_eq_self hback, htrim]
  rfl

theorem names_join {segments : List Text} (h : ∀ s ∈ segments, CleanName s) :
    names (joinText segments) = segments := by
  cases segments with
  | nil => rfl
  | cons first rest =>
      rw [names, joinText, List.splitOn_intercalate '/' (fun s hs => (h s hs).noSlash) (by simp),
        List.filter_eq_self]
      intro s hs
      exact decide_eq_true ⟨(h s hs).nonempty, (h s hs).notDot⟩

theorem cleanSegments_join {segments : List Text} (h : ∀ s ∈ segments, CleanName s) :
    cleanSegments (joinText segments) = segments := by
  rw [cleanSegments_of_plain, names_join h]
  rw [names_join h]
  exact fun s hs => (h s hs).plain

theorem splitOn_slashes_join {segments : List Text} (h : segments ≠ []) :
    (slashes (joinText segments)).splitOn '/' =
      segments.flatMap fun s => (slashes s).splitOn '/' := by
  induction segments with
  | nil => exact absurd rfl h
  | cons first rest ih =>
      cases rest with
      | nil => rw [joinText_singleton, List.flatMap_singleton]
      | cons second rest =>
          have hslashes : slashes (first ++ '/' :: joinText (second :: rest)) =
              slashes first ++ '/' :: slashes (joinText (second :: rest)) := List.map_append
          rw [joinText_cons_cons, hslashes, splitOn_append_slash, ih (by simp)]
          rfl

/-- A segment `..` is found wherever it stands. -/
theorem mem_cleanSegments_of_names (h : ['.', '.'] ∈ names raw) :
    ['.', '.'] ∈ cleanSegments raw := by
  have hsegment : ['.', '.'] ∈ (slashes raw).splitOn '/' := by
    have hraw : raw = joinText (raw.splitOn '/') := (List.intercalate_splitOn '/').symm
    have hne : raw.splitOn '/' ≠ [] := List.splitOnP_ne_nil _ _
    rw [hraw, splitOn_slashes_join hne]
    exact List.mem_flatMap.mpr ⟨_, List.mem_of_mem_filter h, by decide⟩
  rw [cleanSegments_eq]
  exact List.mem_filter.mpr ⟨List.mem_map.mpr ⟨_, hsegment, by decide⟩, by decide⟩

/-! ## The normalisers -/

section Normalisers

variable {segments folder : List Text}

theorem normalizeUploadRelativePath_ok {path : Text}
    (h : normalizeUploadRelativePath raw = .ok path) :
    ['.', '.'] ∉ cleanSegments raw ∧ cleanSegments raw ≠ [] ∧
      path = joinText (cleanSegments raw) := by
  simp only [normalizeUploadRelativePath] at h
  split at h
  · cases h
  · next hparent =>
      split at h
      · cases h
      · next hne =>
          cases h
          exact ⟨hparent, hne, rfl⟩

theorem normalizeUploadRelativePath_join (h : ∀ s ∈ segments, CleanName s) (hne : segments ≠ [])
    (hparent : ['.', '.'] ∉ segments) :
    normalizeUploadRelativePath (joinText segments) = .ok (joinText segments) := by
  simp only [normalizeUploadRelativePath, cleanSegments_join h, if_neg hparent, if_neg hne]

theorem cleanSegments_of_trimmed (h : trim (slashes raw) = [] ∨ trim (slashes raw) = ['.']) :
    cleanSegments raw = [] := by
  rw [cleanSegments]
  rcases h with h | h <;> rw [h] <;> decide

theorem normalizeNasPath_eq (raw : Text) :
    normalizeNasPath raw = if ['.', '.'] ∈ cleanSegments raw then .error .escapesRoot
      else .ok (render (cleanSegments raw)) := by
  simp only [normalizeNasPath]
  split
  · next htrimmed =>
      rw [cleanSegments_of_trimmed htrimmed]
      rfl
  · split
    · rfl
    · rw [render, joinText, ite_not]

theorem cleanSegments_render (h : ∀ s ∈ folder, CleanName s) :
    cleanSegments (render folder) = folder := by
  by_cases hnil : folder = []
  · rw [hnil]
    decide
  · rw [render, if_neg hnil]
    exact cleanSegments_join h

theorem joinNasPath_clean (hfolder : ∀ s ∈ folder, CleanName s) (h : ∀ s ∈ segments, CleanName s)
    (hne : segments ≠ []) (hparent : ['.', '.'] ∉ folder ++ segments) :
    joinNasPath (render folder) (joinText segments) = .ok (joinText (folder ++ segments)) := by
  rw [List.mem_append, not_or] at hparent
  rw [joinNasPath, normalizeNasPath_eq, cleanSegments_render hfolder, if_neg hparent.1,
    normalizeUploadRelativePath_join h hne hparent.2]
  by_cases hnil : folder = []
  · subst hnil
    rfl
  · have hdot : render folder ≠ ['.'] := by
      intro hdot
      have hsegments := cleanSegments_render hfolder
      rw [hdot] at hsegments
      exact hnil (hsegments.symm.trans (by decide))
    show Except.ok (if render folder = ['.'] then _ else _) = _
    rw [if_neg hdot, joinText_append hnil hne, render, if_neg hnil]
    rfl

/-- Whatever is joined, the path has plain segments. -/
theorem plain_of_joinNasPath {base relative path : Text}
    (h : joinNasPath base relative = .ok path) : ∀ s ∈ path.splitOn '/', Plain s := by
  obtain ⟨folder, hbase, h⟩ := bind_ok_iff.mp h
  obtain ⟨below, hrelative, h⟩ := bind_ok_iff.mp h
  cases h
  obtain ⟨-, hne, rfl⟩ := normalizeUploadRelativePath_ok hrelative
  have hplain {raw : Text} (hraw : cleanSegments raw ≠ []) :
      ∀ s ∈ (joinText (cleanSegments raw)).splitOn '/', Plain s := by
    rw [joinText,
      List.splitOn_intercalate '/' (fun s hs => (cleanSegments_clean s hs).noSlash) hraw]
    exact fun s hs => (cleanSegments_clean s hs).plain
  split
  · exact hplain hne
  · next hdot =>
      rw [normalizeNasPath_eq] at hbase
      split at hbase
      · cases hbase
      · cases hbase
        rw [render] at hdot ⊢
        split
        · next hnil => exact absurd (if_pos hnil) hdot
        · next hfolder =>
            intro s hs
            rw [splitOn_append_slash] at hs
            exact (List.mem_append.mp hs).elim (hplain hfolder s) (hplain hne s)

end Normalisers

/-! ## The walk -/

/-- The source of a file found at a path below `root`. -/
def sourceBelow (root : Text) (found : List Text × File) : Except Refusal UploadSource :=
  sourceOf found.2 (found.1.foldl Uploads.below root)

mutual

theorem collectUploadSourcesFromEntry_eq (entry : Entry) (root : Text) (h : entry.Valid) :
    collectUploadSourcesFromEntry entry root = entry.files.mapM (sourceBelow root) := by
  cases entry with
  | file found =>
      rw [collectUploadSourcesFromEntry, Entry.files, List.mapM_cons]
      rfl
  | directory name answers =>
      rw [Entry.Valid] at h
      rw [collectUploadSourcesFromEntry, Entry.files, List.mapM_map,
        collectFromReader_eq answers _ h.2.2]
      rfl
  | other name =>
      rw [collectUploadSourcesFromEntry, Entry.files]
      rfl

theorem collectFromEntries_eq (entries : List Entry) (root : Text) (h : ValidEntries entries) :
    collectFromEntries entries root = (filesOf entries).mapM (sourceBelow root) := by
  cases entries with
  | nil =>
      rw [collectFromEntries, filesOf]
      rfl
  | cons entry entries =>
      rw [ValidEntries] at h
      rw [collectFromEntries, filesOf, List.mapM_append,
        collectUploadSourcesFromEntry_eq entry root h.1, collectFromEntries_eq entries root h.2]

theorem collectFromReader_eq (answers : List (List Entry)) (root : Text)
    (h : ValidAnswers answers) :
    collectFromReader answers root = (filesOfAnswers answers).mapM (sourceBelow root) := by
  match answers with
  | [] =>
      rw [collectFromReader, filesOfAnswers]
      rfl
  | [] :: _ =>
      rw [ValidAnswers] at h
      exact absurd rfl h.1
  | (entry :: entries) :: answers =>
      rw [ValidAnswers, ValidEntries] at h
      rw [collectFromReader, filesOfAnswers, filesOf, List.mapM_append, List.mapM_append,
        collectUploadSourcesFromEntry_eq entry root h.2.1.1,
        collectFromEntries_eq entries root h.2.1.2, collectFromReader_eq answers root h.2.2]
      simp only [bind_assoc, pure_bind]

end

theorem flatten_mapM_entries (entries : List Entry) :
    (do let sources ← (entries.map Item.entry).mapM collectUploadSourcesFromDataTransferItem
        return sources.flatten) = collectFromEntries entries [] := by
  induction entries with
  | nil =>
      rw [collectFromEntries]
      rfl
  | cons entry entries ih =>
      rw [collectFromEntries, ← ih, List.map_cons, List.mapM_cons]
      simp [collectUploadSourcesFromDataTransferItem]

/-- What is found: paths of valid names, that start with one of `roots`, no path twice. -/
structure Found (roots : List Text) (files : List (List Text × File)) : Prop where
  start : ∀ file ∈ files, ∃ name ∈ roots, ∃ rest, file.1 = name :: rest
  valid : ∀ file ∈ files, ∀ name ∈ file.1, ValidName name
  once : (files.map Prod.fst).Nodup

theorem Found.append {roots others : List Text} {files more : List (List Text × File)}
    (h : Found roots files) (hmore : Found others more) (hnodup : (roots ++ others).Nodup) :
    Found (roots ++ others) (files ++ more) := by
  refine ⟨?_, ?_, ?_⟩
  · intro file hfile
    rcases List.mem_append.mp hfile with hfile | hfile
    · obtain ⟨name, hname, hrest⟩ := h.start file hfile
      exact ⟨name, List.mem_append_left _ hname, hrest⟩
    · obtain ⟨name, hname, hrest⟩ := hmore.start file hfile
      exact ⟨name, List.mem_append_right _ hname, hrest⟩
  · intro file hfile
    exact (List.mem_append.mp hfile).elim (h.valid file) (hmore.valid file)
  · rw [List.map_append, List.nodup_append]
    refine ⟨h.once, hmore.once, ?_⟩
    intro path hpath other hother heq
    obtain ⟨file, hfile, rfl⟩ := List.mem_map.mp hpath
    obtain ⟨later, hlater, rfl⟩ := List.mem_map.mp hother
    obtain ⟨name, hname, rest, hrest⟩ := h.start file hfile
    obtain ⟨second, hsecond, rest', hrest'⟩ := hmore.start later hlater
    rw [hrest, hrest'] at heq
    exact (List.nodup_append.mp hnodup).2.2 name hname second hsecond (List.cons.inj heq).1

theorem Found.below {roots : List Text} {files : List (List Text × File)} {name : Text}
    (h : Found roots files) (hname : ValidName name) :
    Found [name] (files.map fun (path, file) => (name :: path, file)) := by
  refine ⟨?_, ?_, ?_⟩
  · intro file hfile
    obtain ⟨old, _, rfl⟩ := List.mem_map.mp hfile
    exact ⟨name, List.mem_singleton.mpr rfl, old.1, rfl⟩
  · intro file hfile segment hsegment
    obtain ⟨old, hold, rfl⟩ := List.mem_map.mp hfile
    rcases List.mem_cons.mp hsegment with rfl | hsegment
    · exact hname
    · exact h.valid old hold segment hsegment
  · have hmap : (files.map fun (path, file) => (name :: path, file)).map Prod.fst =
        (files.map Prod.fst).map (name :: ·) := by simp
    rw [hmap]
    exact List.Nodup.map List.cons_injective h.once

mutual

theorem Entry.found (entry : Entry) (h : entry.Valid) : Found [entry.name] entry.files := by
  cases entry with
  | file file =>
      rw [Entry.Valid] at h
      rw [Entry.files]
      refine ⟨?_, ?_, by simp⟩
      · intro found hfound
        cases List.mem_singleton.mp hfound
        exact ⟨_, List.mem_singleton.mpr rfl, [], rfl⟩
      · intro found hfound name hname
        cases List.mem_singleton.mp hfound
        cases List.mem_singleton.mp hname
        exact h
  | directory name answers =>
      rw [Entry.Valid] at h
      rw [Entry.files]
      exact (answers_found answers h.2.2 h.2.1).below h.1
  | other name =>
      rw [Entry.files]
      exact ⟨nofun, nofun, List.nodup_nil⟩

theorem entries_found (entries : List Entry) (h : ValidEntries entries)
    (hnodup : (entries.map Entry.name).Nodup) :
    Found (entries.map Entry.name) (filesOf entries) := by
  cases entries with
  | nil =>
      rw [filesOf]
      exact ⟨nofun, nofun, List.nodup_nil⟩
  | cons entry entries =>
      rw [ValidEntries] at h
      rw [filesOf]
      exact (entry.found h.1).append
        (entries_found entries h.2 (List.nodup_cons.mp hnodup).2) hnodup

theorem answers_found (answers : List (List Entry)) (h : ValidAnswers answers)
    (hnodup : (answers.flatten.map Entry.name).Nodup) :
    Found (answers.flatten.map Entry.name) (filesOfAnswers answers) := by
  cases answers with
  | nil =>
      rw [filesOfAnswers]
      exact ⟨nofun, nofun, List.nodup_nil⟩
  | cons answer answers =>
      rw [ValidAnswers] at h
      rw [List.flatten_cons, List.map_append] at hnodup ⊢
      rw [filesOfAnswers]
      have hparts := List.nodup_append.mp hnodup
      exact (entries_found answer h.2.1 hparts.1).append
        (answers_found answers h.2.2 hparts.2.1) hnodup

end

theorem foldl_below_join {front : List Text} (path : List Text) (hne : front ≠ [])
    (hjoin : joinText front ≠ []) :
    path.foldl Uploads.below (joinText front) = joinText (front ++ path) := by
  induction path generalizing front with
  | nil => rw [List.append_nil, List.foldl_nil]
  | cons name path ih =>
      have hnext : Uploads.below (joinText front) name = joinText (front ++ [name]) := by
        rw [Uploads.below, if_pos hjoin, joinText_append hne (by simp), joinText_singleton]
      rw [List.foldl_cons, hnext, ih (by simp), List.append_assoc, List.singleton_append]
      rw [joinText_append hne (by simp)]
      simp

/-- Names below names are joined by slashes. -/
theorem foldl_below {path : List Text} (hne : path ≠ []) (h : ∀ name ∈ path, ValidName name) :
    path.foldl Uploads.below [] = joinText path := by
  obtain ⟨first, rest, rfl⟩ := List.exists_cons_of_ne_nil hne
  have hfirst : joinText [first] ≠ [] := by
    rw [joinText_singleton]
    exact (validName_ofList.mp (h first List.mem_cons_self)).1
  rw [List.foldl_cons, Uploads.below, if_neg (by simp)]
  have hrest := foldl_below_join rest (show [first] ≠ [] by simp) hfirst
  rwa [joinText_singleton] at hrest

/-! ## Batches -/

theorem Drop.found (drop : Drop) : Found (drop.entries.map Entry.name) (filesOf drop.entries) :=
  entries_found drop.entries drop.valid drop.distinct

theorem upload_eq (drop : Drop) :
    drop.upload = (filesOf drop.entries).mapM (sourceBelow []) >>= fun sources =>
      (if sources ≠ [] then pure sources else collectUploadSourcesFromFileList drop.files) >>=
        createUploadBatch drop.target := by
  rw [← collectFromEntries_eq drop.entries [] drop.valid, ← flatten_mapM_entries]
  simp only [Drop.upload, collectUploadSourcesFromDataTransfer, bind_assoc, pure_bind]

theorem upload_of_none (h : filesOf drop.entries = []) : drop.upload = drop.fallback := by
  rw [upload_eq, h]
  rfl

theorem upload_of_some (h : filesOf drop.entries ≠ []) :
    drop.upload =
      (filesOf drop.entries).mapM (sourceBelow []) >>= createUploadBatch drop.target := by
  rw [upload_eq]
  cases hsources : (filesOf drop.entries).mapM (sourceBelow []) with
  | error e => rfl
  | ok sources =>
      have hlength := (forall₂_of_mapM hsources).length_eq
      have hne : sources ≠ [] := by
        intro hnil
        rw [hnil] at hlength
        exact h (List.eq_nil_of_length_eq_zero hlength)
      show (if sources ≠ [] then pure sources else _) >>= createUploadBatch drop.target = _
      rw [if_pos hne]
      rfl

theorem createUploadBatch_ok {target : Text} {sources : List UploadSource} {batch : UploadBatch}
    (h : createUploadBatch target sources = .ok batch) :
    sources ≠ [] ∧ ∃ base, sources.mapM (createUploadItem base) = .ok batch.items := by
  by_cases hnil : sources = []
  · rw [createUploadBatch, if_pos hnil] at h
    cases h
  · rw [createUploadBatch, if_neg hnil] at h
    obtain ⟨base, _, h⟩ := bind_ok_iff.mp h
    obtain ⟨items, hitems, h⟩ := bind_ok_iff.mp h
    cases h
    exact ⟨hnil, base, hitems⟩

theorem batch_nonempty {target : Text} {sources : List UploadSource} {batch : UploadBatch}
    (h : createUploadBatch target sources = .ok batch) : batch.items ≠ [] := by
  obtain ⟨hne, base, hitems⟩ := createUploadBatch_ok h
  intro hnil
  have hlength := (forall₂_of_mapM hitems).length_eq
  rw [hnil] at hlength
  exact hne (List.eq_nil_of_length_eq_zero hlength)

theorem plain_of_batch {target : Text} {sources : List UploadSource} {batch : UploadBatch}
    (h : createUploadBatch target sources = .ok batch) :
    ∀ item ∈ batch.items, ∀ s ∈ item.targetPath.splitOn '/', Plain s := by
  intro item hitem
  obtain ⟨_, base, hitems⟩ := createUploadBatch_ok h
  obtain ⟨source, _, hsource⟩ := exists_of_mem_mapM hitems hitem
  obtain ⟨relative, _, hsource⟩ := bind_ok_iff.mp hsource
  obtain ⟨path, hpath, hsource⟩ := bind_ok_iff.mp hsource
  cases hsource
  exact plain_of_joinNasPath hpath

/-- A folder with a segment `..` takes nothing. -/
theorem createUploadBatch_parent {target : Text} (h : ['.', '.'] ∈ cleanSegments target)
    (sources : List UploadSource) (batch : UploadBatch) :
    createUploadBatch target sources ≠ .ok batch := by
  intro hok
  by_cases hnil : sources = []
  · exact (createUploadBatch_ok hok).1 hnil
  · rw [createUploadBatch, if_neg hnil, normalizeNasPath_eq, if_pos h] at hok
    cases hok

/-- The item of a file at a path below a folder. -/
def placed (folder : List Text) (found : List Text × File) : UploadItem where
  file := found.2
  name := ((joinText found.1).splitOn '/').getLast?.getD found.2.name
  relativePath := joinText found.1
  targetPath := joinText (folder ++ found.1)

/-- Files at clean paths are taken over one by one. -/
theorem createUploadBatch_clean {target : Text} {files : List (List Text × File)}
    (hsome : files ≠ []) (hfolder : ['.', '.'] ∉ cleanSegments target)
    (h : ∀ found ∈ files, found.1 ≠ [] ∧ (∀ s ∈ found.1, CleanName s) ∧ ['.', '.'] ∉ found.1) :
    createUploadBatch target (files.map fun found => ⟨found.2, joinText found.1⟩) =
      .ok ⟨render (cleanSegments target), files.map (placed (cleanSegments target))⟩ := by
  have hitems : (files.map fun found => (⟨found.2, joinText found.1⟩ : UploadSource)).mapM
        (createUploadItem (render (cleanSegments target))) =
      .ok (files.map (placed (cleanSegments target))) := by
    rw [List.mapM_map]
    refine mapM_ok_of_forall fun found hfound => ?_
    obtain ⟨hpath, hclean, hinside⟩ := h found hfound
    have hall : ['.', '.'] ∉ cleanSegments target ++ found.1 := by simp [hfolder, hinside]
    show createUploadItem _ ⟨found.2, joinText found.1⟩ = _
    rw [createUploadItem, normalizeUploadRelativePath_join hclean hpath hinside]
    show (joinNasPath _ (joinText found.1) >>= _) = _
    rw [joinNasPath_clean cleanSegments_clean hclean hpath hall]
    rfl
  rw [createUploadBatch, if_neg (by simpa using hsome), normalizeNasPath_eq, if_neg hfolder]
  show (List.mapM _ _ >>= fun items => (pure ⟨_, items⟩ : Except Refusal UploadBatch)) = _
  rw [hitems]
  rfl

/-- The browser's own list makes a batch unless nothing can come of it. -/
theorem fallback_iff : (∀ batch, drop.fallback ≠ .ok batch) ↔ drop.NothingListed := by
  constructor
  · intro h
    by_contra hlisted
    simp only [Drop.NothingListed, not_or, not_exists, not_and] at hlisted
    obtain ⟨hsome, hfolder, hpaths⟩ := hlisted
    have hsources : collectUploadSourcesFromFileList drop.files =
        .ok ((drop.files.map fun file => (cleanSegments (getUploadRelativePath file), file)).map
          fun found => ⟨found.2, joinText found.1⟩) := by
      rw [List.map_map]
      refine mapM_ok_of_forall fun file hfile => ?_
      obtain ⟨hne, hparent⟩ := hpaths file hfile
      simp [sourceOf, normalizeUploadRelativePath, hne, hparent]
    have hclean : ∀ found ∈ drop.files.map fun file =>
        (cleanSegments (getUploadRelativePath file), file),
        found.1 ≠ [] ∧ (∀ s ∈ found.1, CleanName s) ∧ ['.', '.'] ∉ found.1 := by
      intro found hfound
      obtain ⟨file, hfile, rfl⟩ := List.mem_map.mp hfound
      exact ⟨(hpaths file hfile).1, cleanSegments_clean, (hpaths file hfile).2⟩
    have hbatch := createUploadBatch_clean (by simpa using hsome) hfolder hclean
    rw [Drop.fallback, hsources] at h
    exact h _ hbatch
  · intro h batch hok
    obtain ⟨sources, hsources, hbatch⟩ := bind_ok_iff.mp hok
    rcases h with hnone | hfolder | ⟨file, hfile, hbad⟩
    · rw [hnone] at hsources
      cases hsources
      exact (createUploadBatch_ok hbatch).1 rfl
    · exact createUploadBatch_parent hfolder sources batch hbatch
    · obtain ⟨source, hsource⟩ := ok_of_mapM hsources hfile
      obtain ⟨path, hpath, -⟩ := bind_ok_iff.mp hsource
      obtain ⟨hparent, hne, -⟩ := normalizeUploadRelativePath_ok hpath
      exact hbad.elim hne hparent

section Spelt

variable (hfolder : ∀ name ∈ names drop.target, Plain name)
  (hparent : ['.', '.'] ∉ names drop.target)
  (hplain : ∀ file ∈ filesOf drop.entries, ∀ name ∈ file.1, Plain name)

include hplain in
theorem clean_of_found {found : List Text × File} (h : found ∈ filesOf drop.entries) :
    found.1 ≠ [] ∧ (∀ s ∈ found.1, CleanName s) ∧ ['.', '.'] ∉ found.1 := by
  obtain ⟨name, _, rest, hpath⟩ := drop.found.start found h
  refine ⟨by simp [hpath], ?_, ?_⟩
  · intro s hs
    obtain ⟨hne, hdot, _, hslash⟩ := validName_ofList.mp (drop.found.valid found h s hs)
    exact ⟨hne, hslash, hdot, hplain found h s hs⟩
  · intro hmem
    exact (validName_ofList.mp (drop.found.valid found h _ hmem)).2.2.1 rfl

include hfolder hparent hplain in
theorem upload_of_plain (hne : filesOf drop.entries ≠ []) :
    drop.upload = .ok ⟨render (names drop.target),
      (filesOf drop.entries).map (placed (names drop.target))⟩ := by
  have hsources : (filesOf drop.entries).mapM (sourceBelow []) =
      .ok ((filesOf drop.entries).map fun found => ⟨found.2, joinText found.1⟩) := by
    refine mapM_ok_of_forall fun found hfound => ?_
    obtain ⟨hpath, hclean, hinside⟩ := clean_of_found hplain hfound
    rw [sourceBelow, foldl_below hpath (drop.found.valid found hfound), sourceOf,
      normalizeUploadRelativePath_join hclean hpath hinside]
    rfl
  have hsegments := cleanSegments_of_plain hfolder
  rw [upload_of_some hne, hsources, ← hsegments]
  exact createUploadBatch_clean hne (hsegments ▸ hparent) fun _ => clean_of_found hplain

include hplain in
theorem shape_of_plain :
    Shape drop ⟨render (names drop.target),
      (filesOf drop.entries).map (placed (names drop.target))⟩ := by
  have htarget {found : List Text × File} (h : found ∈ filesOf drop.entries) :
      (joinText (names drop.target ++ found.1)).splitOn '/' = names drop.target ++ found.1 := by
    obtain ⟨hpath, hclean, _⟩ := clean_of_found hplain h
    refine List.splitOn_intercalate '/' ?_ (by simp [hpath])
    intro s hs
    rcases List.mem_append.mp hs with hs | hs
    · exact (of_mem_names hs).1
    · exact (hclean s hs).noSlash
  constructor
  · rw [List.map_map]
    apply List.map_congr_left
    intro found hfound
    exact congrArg (Prod.mk found.2) (htarget hfound)
  · rw [List.map_map]
    refine List.Nodup.map_on ?_ (List.Nodup.of_map Prod.fst drop.found.once)
    intro found hfound other hother heq
    have hsame := congrArg (List.splitOn '/') (show joinText _ = joinText _ from heq)
    rw [htarget hfound, htarget hother] at hsame
    exact List.inj_on_of_nodup_map drop.found.once hfound hother (List.append_cancel_left hsame)

end Spelt

theorem kept_of_none (h : filesOf drop.entries = []) :
    drop.Kept ↔ drop.NothingListed := by
  rw [← fallback_iff, Drop.Kept, upload_of_none h]
  cases hresult : drop.fallback with
  | error e => exact iff_of_true (.inl h) nofun
  | ok batch =>
      refine iff_of_false ?_ fun hnone => hnone batch rfl
      intro hshape
      obtain ⟨sources, _, hbatch⟩ := bind_ok_iff.mp hresult
      have hitems := hshape.targets
      rw [h, List.map_nil, List.map_eq_nil_iff] at hitems
      exact batch_nonempty hbatch hitems

theorem plain_of_shape {batch : UploadBatch} (hne : filesOf drop.entries ≠ [])
    (hupload : drop.upload = .ok batch) (h : Shape drop batch) :
    (∀ name ∈ names drop.target, Plain name) ∧
      ∀ file ∈ filesOf drop.entries, ∀ name ∈ file.1, Plain name := by
  rw [upload_of_some hne] at hupload
  obtain ⟨sources, _, hbatch⟩ := bind_ok_iff.mp hupload
  have hall : ∀ found ∈ filesOf drop.entries, ∀ s ∈ names drop.target ++ found.1, Plain s := by
    intro found hfound
    have hmem : (found.2, names drop.target ++ found.1) ∈ (filesOf drop.entries).map
        fun (path, file) => (file, names drop.target ++ path) :=
      List.mem_map.mpr ⟨found, hfound, rfl⟩
    rw [← h.targets] at hmem
    obtain ⟨item, hitem, heq⟩ := List.mem_map.mp hmem
    rw [← (Prod.mk.inj heq).2]
    exact plain_of_batch hbatch item hitem
  obtain ⟨first, rest, hfiles⟩ := List.exists_cons_of_ne_nil hne
  refine ⟨?_, ?_⟩
  · intro name hname
    exact hall first (hfiles ▸ List.mem_cons_self) name (List.mem_append_left _ hname)
  · intro file hfile name hname
    exact hall file hfile name (List.mem_append_right _ hname)

theorem upload_keeps_shape_iff (drop : Drop) : drop.Kept ↔ drop.WellSpelt := by
  unfold Drop.WellSpelt
  split
  · next hnone => exact kept_of_none hnone
  · next hsome =>
      constructor
      · intro hkept
        unfold Drop.Kept at hkept
        split at hkept
        · next batch hbatch => exact .inr (plain_of_shape hsome hbatch hkept)
        · exact .inl (hkept.resolve_left hsome)
      · intro hspelt
        by_cases hparent : ['.', '.'] ∈ names drop.target
        · unfold Drop.Kept
          split
          · next batch hbatch =>
              rw [upload_of_some hsome] at hbatch
              obtain ⟨sources, _, hbatch⟩ := bind_ok_iff.mp hbatch
              exact absurd hbatch (createUploadBatch_parent (mem_cleanSegments_of_names hparent)
                sources batch)
          · exact .inr hparent
        · obtain ⟨hfolder, hplain⟩ := hspelt.resolve_left hparent
          rw [Drop.Kept, upload_of_plain hfolder hparent hplain hsome]
          exact shape_of_plain hplain

/-- Two files of which one ends in a blank. -/
def twoFiles : Drop where
  entries := [.file ⟨['a'], [], 1⟩, .file ⟨['a', ' '], [], 2⟩]
  valid := by simp [ValidEntries, Entry.Valid, Zos.Lib.ValidName]
  distinct := by decide
  files := []
  target := ['.']

theorem blank_names_collide :
    twoFiles.upload = .ok ⟨['.'], [⟨⟨['a'], [], 1⟩, ['a'], ['a'], ['a']⟩,
      ⟨⟨['a', ' '], [], 2⟩, ['a'], ['a'], ['a']⟩]⟩ ∧ ¬ twoFiles.Kept := by
  have hupload : twoFiles.upload = .ok ⟨['.'], [⟨⟨['a'], [], 1⟩, ['a'], ['a'], ['a']⟩,
      ⟨⟨['a', ' '], [], 2⟩, ['a'], ['a'], ['a']⟩]⟩ := rfl
  refine ⟨hupload, ?_⟩
  rw [Drop.Kept, hupload]
  intro h
  exact absurd h.distinct (by decide)

end Zos.Web.Uploads
