import Zos.Indexer.Watcher
import Zos.Lib.Cover
import Mathlib.Data.List.Induction

/-!
# Pending watch paths are a minimal cover

The test `is_same_or_ancestor` is a partial order on all texts, normalised or not, so what
`merge_ancestor` keeps is the minimal cover of what it was fed. On normalised paths the test
compares names: the separator it looks for cannot stand inside one.
-/

namespace Zos.Indexer.Watcher

open Zos.Lib Zos.Lib.Utf8

theorem isSameOrAncestor_iff {a p : List Char} :
    isSameOrAncestor a p = true ↔ a = ['.'] ∨ a = p ∨ ∃ rest, p = a ++ '/' :: rest := by
  rw [isSameOrAncestor, Bool.or_eq_true, Bool.or_eq_true, decide_eq_true_iff, decide_eq_true_iff,
    List.isPrefixOf_iff_prefix, or_assoc]
  refine or_congr_right (or_congr_right (exists_congr fun rest => ?_))
  rw [List.append_assoc]
  exact eq_comm

/-- Nothing but the root is above the root. -/
theorem eq_root_of_isSameOrAncestor {a : List Char} (h : isSameOrAncestor a ['.'] = true) :
    a = ['.'] := by
  rcases isSameOrAncestor_iff.mp h with h | h | ⟨rest, h⟩
  · exact h
  · exact h
  · cases a with
    | nil => cases h
    | cons c a =>
        have hlength := congrArg List.length h
        simp at hlength

instance : IsPartialOrder (List Char) fun a p => isSameOrAncestor a p = true where
  refl a := isSameOrAncestor_iff.mpr (.inr (.inl rfl))
  trans a b c hab hbc := by
    rcases isSameOrAncestor_iff.mp hbc with rfl | rfl | ⟨below, rfl⟩
    · exact isSameOrAncestor_iff.mpr (.inl (eq_root_of_isSameOrAncestor hab))
    · exact hab
    · rcases isSameOrAncestor_iff.mp hab with rfl | rfl | ⟨rest, rfl⟩
      · exact isSameOrAncestor_iff.mpr (.inl rfl)
      · exact hbc
      · exact isSameOrAncestor_iff.mpr (.inr (.inr ⟨rest ++ '/' :: below, by simp⟩))
  antisymm a b hab hba := by
    rcases isSameOrAncestor_iff.mp hab with rfl | rfl | ⟨rest, rfl⟩
    · exact (eq_root_of_isSameOrAncestor hba).symm
    · rfl
    · rcases isSameOrAncestor_iff.mp hba with h | h | ⟨more, h⟩
      · rw [h] at hab ⊢
        exact eq_root_of_isSameOrAncestor hab
      · exact h.symm
      · have hlength := congrArg List.length h
        simp only [List.length_append, List.length_cons] at hlength
        omega

/-- The list keeps being the minimal cover. -/
theorem mergeAncestor_cover {fed paths : List (List Char)}
    (h : MinimalCover ByteOrder (fun a p => isSameOrAncestor a p = true) fed paths)
    (candidate : List Char) :
    MinimalCover ByteOrder (fun a p => isSameOrAncestor a p = true) (fed ++ [candidate])
      (mergeAncestor paths candidate) := by
  rw [mergeAncestor]
  split
  · next hany =>
      obtain ⟨existing, hmem, habove⟩ := List.any_eq_true.mp hany
      exact h.skip hmem habove
  · next hnone =>
      refine h.insert ?_ (List.pairwise_mergeSort' ByteOrder _) ?_
      · intro existing hmem habove
        exact hnone (List.any_eq_true.mpr ⟨existing, hmem, habove⟩)
      · simp only [Bool.decide_eq_true, decide_not]
        exact List.mergeSort_perm ..

theorem pending_cover (fed : List (List Char)) :
    MinimalCover ByteOrder (fun a p => isSameOrAncestor a p = true) fed (pending fed) := by
  induction fed using List.reverseRecOn with
  | nil => exact .nil
  | append_singleton fed candidate ih =>
      rw [pending, List.foldl_append]
      exact mergeAncestor_cover ih candidate

/-! ## Names -/

theorem splitOn_joinText {names : List (List Char)} (hne : names ≠ [])
    (h : ∀ name ∈ names, '/' ∉ name) : (joinText names).splitOn '/' = names :=
  List.splitOn_intercalate '/' h hne

namespace RelativePath

theorem joinText_ne_root (p : RelativePath) (hne : p.names ≠ []) : joinText p.names ≠ ['.'] := by
  intro h
  have hsplit := splitOn_joinText hne fun name hname =>
    (validName_ofList.mp (p.proper name hname)).2.2.2
  rw [h] at hsplit
  have hmem : ['.'] ∈ p.names := by
    rw [← hsplit]
    decide
  exact (validName_ofList.mp (p.proper _ hmem)).2.1 rfl

/-- The test compares names. -/
theorem isSameOrAncestor_text (p q : RelativePath) :
    isSameOrAncestor p.text q.text = true ↔ p.Above q := by
  have hslash (p : RelativePath) : ∀ name ∈ p.names, '/' ∉ name :=
    fun name hname => (validName_ofList.mp (p.proper name hname)).2.2.2
  by_cases hp : p.names = []
  · rw [text, if_pos hp, Above, hp]
    exact iff_of_true (isSameOrAncestor_iff.mpr (.inl rfl)) List.nil_prefix
  · rw [text, if_neg hp]
    by_cases hq : q.names = []
    · rw [text, if_pos hq, Above, hq, List.prefix_nil]
      exact iff_of_false (fun h => p.joinText_ne_root hp (eq_root_of_isSameOrAncestor h)) hp
    · rw [text, if_neg hq, isSameOrAncestor_iff, or_iff_right (p.joinText_ne_root hp)]
      exact intercalate_prefix_iff hp hq (hslash p) (hslash q)

end RelativePath

/-- The pending paths are the topmost ones of those that were fed, whatever their order. -/
theorem pending_is_minimal_cover (fed : List RelativePath) :
    (∃ kept : List RelativePath, pending (fed.map (·.text)) = kept.map (·.text) ∧
        MinimalCover (fun p q => ByteOrder p.text q.text) RelativePath.Above fed kept) ∧
      ∀ other : List RelativePath, (∀ p, p ∈ other ↔ p ∈ fed) →
        pending (other.map (·.text)) = pending (fed.map (·.text)) := by
  have hcover := pending_cover (fed.map (·.text))
  constructor
  · obtain ⟨kept, hkept, hkeptCover⟩ := hcover.of_map
    simp only [RelativePath.isSameOrAncestor_text] at hkeptCover
    exact ⟨kept, hkept, hkeptCover⟩
  · intro other hsame
    refine (pending_cover _).unique hcover fun x => ?_
    simp only [List.mem_map, hsame]

def directory : RelativePath := ⟨[['a']], by simp [ValidName]⟩

def fileInIt : RelativePath := ⟨[['a'], ['b']], by simp [ValidName]⟩

/-- The directory alone is left, in both orders. -/
theorem pending_directory_only : pending ([fileInIt, directory].map (·.text)) = [directory.text] ∧
    pending ([directory, fileInIt].map (·.text)) = [directory.text] := by
  have hfirst : pending ([fileInIt, directory].map (·.text)) = [directory.text] := by
    simp [pending, mergeAncestor, isSameOrAncestor, RelativePath.text, directory, fileInIt,
      joinText]
  refine ⟨hfirst, ((pending_is_minimal_cover [fileInIt, directory]).2 _ ?_).trans hfirst⟩
  exact fun p => (List.Perm.swap ..).mem_iff

end Zos.Indexer.Watcher
