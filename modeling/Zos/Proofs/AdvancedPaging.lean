import Mathlib.Data.List.Nodup
import Zos.Indexer.AdvancedSearch

/-!
# Paging through a search

The condition of a cursor is the order of the rows, with the value of the last row as JavaScript
has seen it. Scores and texts come back as they were; an integer beyond 2^53 comes back as the
double nearest to it. If that double lies on the wrong side of the row, the row is selected again,
and if it lies behind the next row, that one is left out. Otherwise the search, and the route that
reads several pages of it for one answer, hand out every row once.
-/

namespace Zos.Indexer.AdvancedSearch

open Zos.Lib

variable {σ : Type}

/-! ## Rows -/

section

variable {content : Content σ} {request : Request}

theorem file_of_mem_rows {file : File} : (∃ row ∈ content.rows request, row.file = file) ↔
    file ∈ content.files ∧ request.accepts file = true ∧
      (request.queried = true → ∃ found ∈ content.found, found.fileId = file.id) := by
  simp only [Content.rows, List.mem_flatMap, List.mem_filter]
  cases hqueried : request.queried with
  | false =>
      simp only [Bool.false_eq_true, if_false, List.mem_singleton, false_implies, and_true]
      constructor
      · rintro ⟨row, ⟨f, hf, rfl⟩, rfl⟩
        exact hf
      · exact fun hf => ⟨⟨file, ⊥⟩, ⟨file, hf, rfl⟩, rfl⟩
  | true =>
      simp only [if_true, List.mem_map, List.mem_filter, decide_eq_true_eq, true_implies]
      constructor
      · rintro ⟨row, ⟨f, hf, found, ⟨hfound, hid⟩, rfl⟩, rfl⟩
        exact ⟨hf.1, hf.2, found, hfound, hid⟩
      · rintro ⟨hfile, haccepts, found, hfound, hid⟩
        exact ⟨⟨file, found.score⟩, ⟨file, ⟨hfile, haccepts⟩, found, ⟨hfound, hid⟩, rfl⟩, rfl⟩

theorem map_id_rows : (content.rows request).map (·.file.id) =
    (content.files.filter request.accepts).flatMap fun file => List.replicate
      (if request.queried then (content.found.filter (·.fileId = file.id)).length else 1)
      file.id := by
  rw [Content.rows, List.map_flatMap]
  congr 1
  funext file
  cases request.queried with
  | false => rfl
  | true => simp [List.map_const', Function.comp_def]

theorem nodup_rows_iff : ((content.rows request).map (·.file.id)).Nodup ↔
    FoundOnce content request := by
  have hdistinct : (content.files.filter request.accepts).Pairwise fun a b => a.id ≠ b.id := by
    rw [← List.pairwise_map, ← List.nodup_iff_pairwise_ne]
    exact content.distinct.sublist (List.filter_sublist.map _)
  rw [map_id_rows, List.nodup_flatMap, and_iff_left]
  · simp only [List.nodup_replicate, List.mem_filter, and_imp, FoundOnce]
    cases request.queried <;> simp
  · refine hdistinct.imp fun {a b} hne id ha hb => ?_
    exact hne ((List.eq_of_mem_replicate ha).symm.trans (List.eq_of_mem_replicate hb))

theorem nodup_key (h : ((content.rows request).map (·.file.id)).Nodup) :
    ((content.rows request).map request.key).Nodup := by
  refine List.Nodup.of_map (fun key => (ofLex key).2) ?_
  rwa [List.map_map]

end

variable [LinearOrder σ] {content : Content σ} {request : Request}

/-! ## Cursors -/

theorem perm_ordered : (content.ordered request).Perm (content.rows request) := by
  unfold Content.ordered
  split <;> exact List.mergeSort_perm _ _

/-- The condition of a cursor is the order of the rows. -/
theorem after_iff {a b : Row σ} : request.pager.after (request.pager.cursorOf a) b = true ↔
    match request.direction with
    | .asc => request.bound a < request.key b
    | .desc => request.key b < request.bound a := by
  simp only [Request.pager, Request.bound, Request.key, operator, Bool.or_eq_true,
    Bool.and_eq_true, decide_eq_true_eq]
  cases request.direction with
  | asc =>
      simp only [decide_eq_true_eq, Prod.Lex.toLex_lt_toLex]
      exact or_congr_right (and_congr_left' eq_comm)
  | desc => simp only [decide_eq_true_eq, Prod.Lex.toLex_lt_toLex]

/-- Rows in the order of a key, whose cursors compare as bounds. -/
theorem paged_iff_of_order {β : Type} [LinearOrder β] {key bound : Row σ → β}
    {rows : List (Row σ)} {inPool : Row σ → Bool} (hsorted : rows.Pairwise (key · < key ·))
    (hafter : ∀ a b : Row σ,
      request.pager.after (request.pager.cursorOf a) b = true ↔ bound a < key b) :
    (request.pager.Complete rows (fun limit => 1 ≤ limit ∧ limit ≤ 100) ∧
      request.pager.GatheredComplete rows inPool maxAdvancedSearchScopePages
        fun limit => 1 ≤ limit ∧ limit ≤ 100) ↔
    ∀ a ∈ rows, ∀ b ∈ rows, key a < key b → key a ≤ bound a ∧ bound a < key b := by
  have hbounds : request.pager.Complete rows (fun limit => 1 ≤ limit ∧ limit ≤ 100) ↔
      ∀ a ∈ rows, ∀ b ∈ rows, key a < key b → key a ≤ bound a ∧ bound a < key b :=
    Pager.complete_iff_of_bounds hsorted (fun _ _ => rfl) (fun a _ b _ => hafter a b)
      ⟨le_rfl, by omega⟩ fun _ h => h.1
  refine ⟨fun h => hbounds.mp h.1, fun h => ⟨hbounds.mpr h, ?_⟩⟩
  exact Pager.gatheredComplete_of_exact
    (Pager.exact_of_bounds hsorted (fun _ _ => rfl) (fun a _ b _ => hafter a b) h)
    (by decide) fun _ h => h.1

theorem paged_iff (inPool : File → Bool)
    (h : ((content.rows request).map (·.file.id)).Nodup) :
    (content.ordered request).Pairwise request.Before ∧
    ((request.pager.Complete (content.ordered request) (fun limit => 1 ≤ limit ∧ limit ≤ 100) ∧
      request.pager.GatheredComplete (content.ordered request) (inPool ·.file)
        maxAdvancedSearchScopePages fun limit => 1 ≤ limit ∧ limit ≤ 100) ↔
      ∀ a ∈ content.rows request, ∀ b ∈ content.rows request, request.Before a b →
        request.Between a b) := by
  have hkeys := nodup_key h
  have hmem {row : Row σ} : row ∈ content.ordered request ↔ row ∈ content.rows request :=
    perm_ordered.mem_iff
  simp only [← hmem]
  unfold Request.Between
  cases hdirection : request.direction with
  | asc =>
      have hsorted : (content.ordered request).Pairwise (request.key · < request.key ·) := by
        rw [Content.ordered, hdirection]
        exact Pager.pairwise_mergeSort hkeys
      have hbefore : request.Before (σ := σ) = fun a b => request.key a < request.key b := by
        funext a b
        rw [Request.Before, hdirection]
      rw [hbefore]
      refine ⟨hsorted, paged_iff_of_order hsorted fun a b => ?_⟩
      rw [after_iff, hdirection]
  | desc =>
      have hsorted : (content.ordered request).Pairwise fun a b =>
          OrderDual.toDual (request.key a) < OrderDual.toDual (request.key b) := by
        rw [Content.ordered, hdirection]
        refine Pager.pairwise_mergeSort ?_
        have hdual := hkeys.map OrderDual.toDual.injective
        rwa [List.map_map] at hdual
      have hbefore : request.Before (σ := σ) = fun a b => request.key b < request.key a := by
        funext a b
        rw [Request.Before, hdirection]
      rw [hbefore]
      have hafter : ∀ a b : Row σ, request.pager.after (request.pager.cursorOf a) b = true ↔
          OrderDual.toDual (request.bound a) < OrderDual.toDual (request.key b) := by
        intro a b
        rw [after_iff, hdirection]
        rfl
      exact ⟨hsorted, paged_iff_of_order hsorted hafter⟩

theorem advanced_paged_iff (content : Content σ) (request : Request) (inPool : File → Bool) :
    PagedCompletely content request inPool ↔
      FoundOnce content request ∧ ∀ a ∈ content.rows request, ∀ b ∈ content.rows request,
        request.Before a b → request.Between a b := by
  have hids : ((content.ordered request).map (·.file.id)).Nodup ↔
      ((content.rows request).map (·.file.id)).Nodup := (perm_ordered.map _).nodup_iff
  rw [← nodup_rows_iff]
  constructor
  · intro h
    have honce := hids.mp h.once
    exact ⟨honce, (paged_iff inPool honce).2.mp ⟨h.pages, h.answers⟩⟩
  · rintro ⟨honce, hbetween⟩
    obtain ⟨hordered, hpaged⟩ := paged_iff inPool honce
    obtain ⟨hpages, hanswers⟩ := hpaged.mpr hbetween
    refine ⟨fun file => ?_, hids.mpr honce, hordered, hpages, hanswers⟩
    rw [← file_of_mem_rows, List.mem_map]
    simp only [perm_ordered.mem_iff]

/-! ## Beyond the safe integers -/

/-- Two sparse files of which one is a byte larger than a double can say. -/
def sparseFiles : Content Nat where
  files := [⟨['a'], ['a'], 2 ^ 53 + 1, 0⟩, ⟨['b'], ['b'], 2 ^ 53 + 2, 0⟩]
  distinct := by decide
  found := []

def bySize : Request := ⟨fun _ => true, false, .size, .asc⟩

/-- The cursor after the first file selects it again. -/
theorem sparse_file_comes_again : ¬ PagedCompletely sparseFiles bySize fun _ => true := by
  intro h
  have honce := (perm_ordered.map _).nodup_iff.mp h.once
  have hbetween := (paged_iff (fun _ => true) honce).2.mp ⟨h.pages, h.answers⟩
    ⟨⟨['a'], ['a'], 2 ^ 53 + 1, 0⟩, ⊥⟩ (by simp [Content.rows, sparseFiles, bySize])
    ⟨⟨['b'], ['b'], 2 ^ 53 + 2, 0⟩, ⊥⟩ (by simp [Content.rows, sparseFiles, bySize])
    (show bySize.key _ < bySize.key _ by decide)
  exact absurd hbetween.1 (by decide)

end Zos.Indexer.AdvancedSearch
