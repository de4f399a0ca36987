import Mathlib.Data.List.Nodup
import Zos.Photostaff.Query

/-!
# Paging through a query

The cursor of a page is the sort value of its last photo, computed again from the record that is
sent, and for each of the six fields it is the value SQL sorts by. It travels as JSON, where an
infinite number is `null`. A query can be paged to its end with every sequence of limits exactly
if a photo with an infinite rating has nothing after it but photos without a rating that also come
after it by their ids.
-/

namespace Zos.Photostaff.Query

open Zos.Lib

variable {library : Library} {request : Request} {a b : Asset}

/-- With any limits, following the cursors gives every match once, in the order of the query. -/
structure PagedToEnd (library : Library) (request : Request) : Prop where
  once : (library.ordered request).Perm (library.matches request)
  inOrder : (library.ordered request).Pairwise fun left right =>
    request.key left < request.key right
  counted : (library.ordered request).length = library.total request
  pages : request.pager.Complete (library.ordered request) fun limit => ∃ requested : Option Int,
    (∀ n ∈ requested, 1 ≤ n ∧ n ≤ 100) ∧ limit = queryLimit requested

theorem ordered_perm : (library.ordered request).Perm (library.matches request) :=
  List.mergeSort_perm _ _

/-- The second statement counts the rows of the first without its cursor and limit. -/
theorem length_ordered : (library.ordered request).length = library.total request := by
  rw [ordered_perm.length_eq, Library.total, List.countP_eq_length_filter, Library.matches]

/-! ## The order as a condition -/

theorem directed_lt_iff {α : Type} [LinearOrder α] (direction : Direction) (x y : α) :
    directed direction x < directed direction y ↔ operator direction x y = true := by
  cases direction <;> exact decide_eq_true_iff.symm

theorem directed_inj {α : Type} (direction : Direction) {x y : α} :
    directed direction x = directed direction y ↔ x = y := by
  cases direction <;> exact Iff.rfl

@[simp]
theorem operator_self {α : Type} [LinearOrder α] (direction : Direction) (x : α) :
    operator direction x x = false := by
  cases direction <;> simp [operator]

theorem operator_coe (direction : Direction) (x y : Datum) :
    operator direction (x : WithBot Datum) (y : WithBot Datum) = operator direction x y := by
  cases direction <;> simp [operator]

theorem operator_trans {α : Type} [LinearOrder α] {direction : Direction} {x y z : α}
    (hxy : operator direction x y = true) (hyz : operator direction y z = true) :
    operator direction x z = true :=
  (directed_lt_iff ..).mp
    (((directed_lt_iff ..).mpr hxy).trans ((directed_lt_iff ..).mpr hyz))

theorem ordered_pairwise (library : Library) (request : Request) :
    (library.ordered request).Pairwise fun left right => request.key left < request.key right := by
  have hids : ((library.matches request).map Asset.id).Nodup :=
    library.distinct.sublist ((List.filter_sublist.trans List.filter_sublist).map _)
  refine Pager.pairwise_mergeSort (List.Nodup.of_map (fun key => (ofLex (ofLex key).2).2) ?_)
  rw [List.map_map]
  have hdirected := hids.map fun _ _ => (directed_inj request.direction).mp
  rwa [List.map_map] at hdirected

/-- A cursor with the value SQL sorts by selects what comes after its photo. -/
theorem key_lt_iff : request.key a < request.key b ↔
    request.cursorSql ⟨request.sortValue a, a.id⟩ b = true := by
  simp only [Request.key, Prod.Lex.toLex_lt_toLex, directed_lt_iff, directed_inj,
    Request.cursorSql]
  cases request.sortValue a with
  | none =>
      cases request.sortValue b with
      | none => simp [operator_self]
      | some value => simp
  | some bound =>
      cases request.sortValue b with
      | none => simp
      | some value =>
          have hcomm : value = bound ↔ bound = value := eq_comm
          simp [column, operator_coe, hcomm]

/-! ## The value of a cursor -/

theorem sqliteLower_eq (text : List Char) : sqliteLower text = lower text := by
  refine List.map_congr_left fun c _ => ?_
  split
  · rfl
  · next h =>
      unfold Char.toLower
      split
      · next hupper => exact absurd hupper h
      · rfl

theorem photoSortValue_eq (photo : Asset) :
    request.photoSortValue photo = request.sortValue photo := by
  unfold Request.photoSortValue Request.sortValue
  cases request.field with
  | name => simp only [sqliteLower_eq]
  | capturedAt =>
      cases photo.metadata.bind Metadata.capturedAt with
      | some _ => rfl
      | none => cases photo.metadata.bind Metadata.capturedAtLocal <;> rfl
  | _ => rfl

def Request.Infinite (request : Request) (asset : Asset) : Prop :=
  request.sortValue asset = some (Sum.inlₗ ⊥) ∨ request.sortValue asset = some (Sum.inlₗ ⊤)

theorem cursorOf_infinite (h : request.Infinite a) : request.pager.cursorOf a = ⟨none, a.id⟩ := by
  simp only [Request.pager, photoSortValue_eq]
  obtain h | h := h <;> simp [h, jsonValue]

theorem cursorOf_finite (h : ¬ request.Infinite a) :
    request.pager.cursorOf a = ⟨request.sortValue a, a.id⟩ := by
  simp only [Request.pager, photoSortValue_eq, jsonValue, Cursor.mk.injEq, and_true]
  cases hvalue : request.sortValue a with
  | none => rfl
  | some value =>
      rw [Option.filter_some, if_pos]
      exact decide_eq_true (by simpa [Request.Infinite, hvalue, not_or] using h)

/-- The cursor of a photo with an infinite rating selects photos without a rating only. -/
theorem after_infinite (h : request.Infinite a) :
    request.pager.after (request.pager.cursorOf a) b = true ↔
      request.sortValue b = none ∧ operator request.direction a.id b.id = true := by
  rw [cursorOf_infinite h]
  simp [Request.pager, Request.cursorSql]

/-! ## Whole queries -/

theorem PagedToEnd.unrated (h : PagedToEnd library request) (ha : a ∈ library.matches request)
    (hb : b ∈ library.matches request) (hlt : request.key a < request.key b)
    (hinfinite : request.Infinite a) :
    request.sortValue b = none ∧ operator request.direction a.id b.id = true := by
  obtain ⟨front, after, hrows, hafter⟩ := Pager.split_of_lt (ordered_pairwise library request)
    (ordered_perm.mem_iff.mpr ha) (ordered_perm.mem_iff.mpr hb) hlt
  obtain ⟨found, hfound, hhead⟩ :=
    h.pages.leads ⟨some 1, by simp, by decide⟩ hrows (List.ne_nil_of_mem hafter)
  obtain ⟨next, after, rfl⟩ := List.exists_cons_of_ne_nil (List.ne_nil_of_mem hafter)
  rw [Pager.rest] at hfound
  split at hfound
  · -- the row after `a` is found, so it has no rating, and so have all that come after it
    cases hfound
    have hnext := (List.mem_filter.mp (List.mem_of_mem_head? (hhead.trans rfl))).2
    obtain ⟨hnone, hid⟩ := (after_infinite hinfinite).mp hnext
    obtain rfl | hlater := List.mem_cons.mp hafter
    · exact ⟨hnone, hid⟩
    · have hsorted := ordered_pairwise library request
      rw [hrows] at hsorted
      have hback := (List.pairwise_cons.mp (List.pairwise_append.mp hsorted).2.1).2
      have hlast := key_lt_iff.mp ((List.pairwise_cons.mp hback).1 b hlater)
      simp only [Request.cursorSql, hnone, Bool.and_eq_true, Option.isNone_iff_eq_none] at hlast
      exact ⟨hlast.1, operator_trans hid hlast.2⟩
  · cases hfound

/-- A query can be paged to its end exactly if what comes after an infinite rating is unrated, and
comes after it by its id too. -/
theorem query_paged_iff (library : Library) (request : Request) : PagedToEnd library request ↔
    ∀ a ∈ library.matches request, ∀ b ∈ library.matches request,
      request.key a < request.key b → request.Infinite a →
        request.sortValue b = none ∧ operator request.direction a.id b.id = true := by
  constructor
  · exact fun h a ha b hb hlt hinfinite => h.unrated ha hb hlt hinfinite
  · intro h
    have hmem {x : Asset} : x ∈ library.ordered request ↔ x ∈ library.matches request :=
      ordered_perm.mem_iff
    refine ⟨ordered_perm, ordered_pairwise library request, length_ordered,
      Pager.complete_of_exact (fun front a after hrows _ => ?_) ?_⟩
    · have ha : a ∈ library.ordered request := hrows ▸ by simp
      refine Pager.rest_of_sorted (ordered_pairwise library request) hrows ?_ fun b hb => ?_
      · simp [Request.pager, a.named]
      · by_cases hinfinite : request.Infinite a
        · rw [after_infinite hinfinite]
          refine ⟨fun hafter => key_lt_iff.mpr ?_,
            fun hlt => h a (hmem.mp ha) b (hmem.mp hb) hlt hinfinite⟩
          obtain hvalue | hvalue := hinfinite <;> simp [Request.cursorSql, hvalue, hafter.1]
        · rw [cursorOf_finite hinfinite, key_lt_iff]
          rfl
    · rintro limit ⟨requested, -, rfl⟩
      unfold queryLimit
      omega

def rated (id : List Char) (named : id ≠ []) (rating : Number) : Asset :=
  ⟨id, id, 0, [], [], some ⟨none, none, some rating⟩, named, by decide⟩

/-- Two photos with the ratings `inf` and 5, the best first: the second is not reached. -/
theorem query_stops_at_infinite_rating : ∃ library request, ¬ PagedToEnd library request := by
  refine ⟨⟨[rated ['1'] (by decide) ⊤, rated ['2'] (by decide) ((5 : ℚ) : WithTop ℚ)], by decide⟩,
    ⟨fun _ => true, fun _ => none, none, .rating, .desc⟩, fun h => ?_⟩
  have hnone := (h.unrated (a := rated ['1'] (by decide) ⊤)
    (b := rated ['2'] (by decide) ((5 : ℚ) : WithTop ℚ)) ?_ ?_ (key_lt_iff.mpr ?_) (.inr rfl)).1
  · cases hnone
  · simp [Library.matches, Library.candidates, Request.postWhere]
  · simp [Library.matches, Library.candidates, Request.postWhere]
  · rfl

end Zos.Photostaff.Query
