import Zos.Photostaff.Timeline

/-!
# Paging through the timeline

The cursor of a page is the key of its last photo, so it always leads to the next one. It is
refused, though, if `Date.parse` finds no date in its `takenAt`, and `taken_at` can be any text of
nineteen characters that a camera wrote. The timeline can be paged to its end with every sequence
of limits exactly if no photo but the last has such a text.
-/

namespace Zos.Photostaff.Timeline

open Zos.Lib

/-- With any limits, following the cursors gives every photo once, the latest first. -/
structure PagedToEnd (env : Env) (library : Library) : Prop where
  once : (library.ordered env).Perm library.assets
  latestFirst : (library.ordered env).Pairwise fun left right => left.key env < right.key env
  pages : (pager env).Complete (library.ordered env) fun limit => ∃ requested,
    limit = pageLimit requested

variable {env : Env} {library : Library}

theorem ordered_perm : (library.ordered env).Perm library.assets := List.mergeSort_perm _ _

theorem ordered_pairwise (env : Env) (library : Library) :
    (library.ordered env).Pairwise fun left right => left.key env < right.key env := by
  refine Pager.pairwise_mergeSort ?_
  refine List.Nodup.of_map (fun key => (ofLex (OrderDual.ofDual key)).2) ?_
  rw [List.map_map]
  exact library.distinct

theorem key_lt_iff {a b : Asset} : a.key env < b.key env ↔
    b.takenAt env < a.takenAt env ∨ b.takenAt env = a.takenAt env ∧ b.id < a.id := by
  simp [Asset.key, Prod.Lex.toLex_lt_toLex]

/-- A cursor that is accepted leads to the photos after its own. -/
theorem rest_eq {a : Asset} {front after : List Asset}
    (hrows : library.ordered env = front ++ a :: after)
    (h : env.isFiniteDate (a.takenAt env) = true) :
    (pager env).rest (library.ordered env) (some ((pager env).cursorOf a)) = some after := by
  refine Pager.rest_of_sorted (ordered_pairwise env library) hrows ?_ fun b _ => ?_
  · simp [pager, decodeCursor, h, a.named]
  · rw [key_lt_iff]
    simp [pager, Asset.after]

theorem PagedToEnd.date (h : PagedToEnd env library) {a b : Asset} (ha : a ∈ library.assets)
    (hb : b ∈ library.assets) (hlt : a.key env < b.key env) :
    env.isFiniteDate (a.takenAt env) = true := by
  obtain ⟨front, after, hrows, hafter⟩ := Pager.split_of_lt (ordered_pairwise env library)
    (ordered_perm.mem_iff.mpr ha) (ordered_perm.mem_iff.mpr hb) hlt
  obtain ⟨found, hfound, -⟩ :=
    h.pages.leads ⟨some 1, by decide⟩ hrows (List.ne_nil_of_mem hafter)
  rw [Pager.rest] at hfound
  split at hfound
  · next haccepts =>
      simp only [pager, decodeCursor, Bool.and_eq_true] at haccepts
      exact haccepts.1
  · cases hfound

/-- The timeline can be paged to the end exactly if every photo but the last has a date. -/
theorem timeline_paged_iff (env : Env) (library : Library) : PagedToEnd env library ↔
    ∀ a ∈ library.assets, ∀ b ∈ library.assets, a.key env < b.key env →
      env.isFiniteDate (a.takenAt env) = true := by
  constructor
  · exact fun h a ha b hb hlt => h.date ha hb hlt
  · intro h
    refine ⟨ordered_perm, ordered_pairwise env library, Pager.complete_of_exact ?_ ?_⟩
    · intro front a after hrows hafter
      obtain ⟨b, after, rfl⟩ := List.exists_cons_of_ne_nil hafter
      have hsorted := ordered_pairwise env library
      have hmem (x : Asset) (hx : x ∈ front ++ a :: b :: after) : x ∈ library.assets :=
        ordered_perm.mem_iff.mp (hrows ▸ hx)
      rw [hrows] at hsorted
      have hlt : a.key env < b.key env :=
        (List.pairwise_cons.mp (List.pairwise_append.mp hsorted).2.1).1 b List.mem_cons_self
      exact rest_eq hrows (h a (hmem a (by simp)) b (hmem b (by simp)) hlt)
    · rintro limit ⟨requested, rfl⟩
      unfold pageLimit
      omega

/-- A photo of a camera whose clock was never set. -/
def unsetClock (id : List Char) (named : id ≠ []) : Asset :=
  ⟨id, ["0000:00:00 00:00:00".toList], 0, named⟩

/-- Two such photos: the date is kept with its month zero, which `Date.parse` refuses. -/
theorem timeline_stops_at_unset_clock : ∃ env library,
    env.parse "0000:00:00 00:00:00".toList = none ∧
    env.isFiniteDate "0000-00-00T00:00:00".toList = false ∧ ¬ PagedToEnd env library := by
  let crate : TimeCrate := ⟨fun _ => none, fun _ => none, nofun, nofun⟩
  let env : Env := ⟨crate, fun _ => [], (· ≠ "0000-00-00T00:00:00".toList)⟩
  have htaken (id : List Char) (named : id ≠ []) :
      (unsetClock id named).takenAt env = "0000-00-00T00:00:00".toList := by
    show takenAt crate (fun _ => []) ["0000:00:00 00:00:00".toList] 0 = _
    decide
  refine ⟨env, ⟨[unsetClock ['1'] (by decide), unsetClock ['2'] (by decide)], by decide⟩, rfl,
    by simp [env], fun h => ?_⟩
  have hdate := h.date (a := unsetClock ['2'] (by decide)) (b := unsetClock ['1'] (by decide))
    (by simp) (by simp) (by rw [key_lt_iff, htaken, htaken]; exact .inr ⟨rfl, by decide⟩)
  rw [htaken] at hdate
  simp [env] at hdate

end Zos.Photostaff.Timeline
