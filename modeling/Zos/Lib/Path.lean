import Zos.Lib.Join

/-!
# Paths as texts

The segments of a path are what stands between its slashes. A path that goes on
below another has the other's segments before its own.
-/

namespace Zos.Lib

/-- A name that a directory can hold. -/
def ValidName (name : String) : Prop :=
  name ≠ "" ∧ name ≠ "." ∧ name ≠ ".." ∧ '/' ∉ name.toList

instance (name : String) : Decidable (ValidName name) :=
  inferInstanceAs (Decidable (_ ∧ _ ∧ _ ∧ _))

theorem validName_ofList {name : List Char} : ValidName (.ofList name) ↔
    name ≠ [] ∧ name ≠ ['.'] ∧ name ≠ ['.', '.'] ∧ '/' ∉ name := by
  simp [ValidName, ← String.toList_inj]

def segments (path : String) : List String :=
  (path.toList.splitOn '/').map String.ofList

theorem segments_append_slash (p q : String) :
    segments (p ++ "/" ++ q) = segments p ++ segments q := by
  have hchars : (p ++ "/" ++ q).toList = p.toList ++ '/' :: q.toList := by
    simp [String.toList_append]
  rw [segments, hchars, List.splitOn, List.splitOnP_append_cons _ _ (by simp), List.map_append]
  rfl

/-- A name is its own only segment. -/
theorem segments_of_notMem {name : String} (h : '/' ∉ name.toList) : segments name = [name] := by
  rw [segments, List.splitOn_eq_singleton h, List.map_singleton, String.ofList_toList]

theorem not_of_mem_splitOnP {α : Type} {p : α → Bool} {l piece : List α}
    (h : piece ∈ l.splitOnP p) : ∀ x ∈ piece, ¬p x = true := by
  induction l generalizing piece with
  | nil =>
      rw [List.splitOnP_nil, List.mem_singleton] at h
      rw [h]
      exact nofun
  | cons x l ih =>
      rw [List.splitOnP_cons_eq_if_modifyHead] at h
      split at h
      · obtain rfl | h := List.mem_cons.mp h
        · exact nofun
        · exact ih h
      · next hx =>
          cases hl : l.splitOnP p with
          | nil => exact absurd hl (List.splitOnP_ne_nil _ _)
          | cons first rest =>
              rw [hl] at h ih
              obtain rfl | h := List.mem_cons.mp h
              · intro y hy
                obtain rfl | hy := List.mem_cons.mp hy
                · exact hx
                · exact ih List.mem_cons_self y hy
              · exact ih (List.mem_cons_of_mem _ h)

theorem mem_of_mem_splitOnP {α : Type} {p : α → Bool} {l piece : List α} {x : α}
    (h : piece ∈ l.splitOnP p) (hx : x ∈ piece) : x ∈ l := by
  induction l generalizing piece with
  | nil =>
      rw [List.splitOnP_nil, List.mem_singleton] at h
      rwa [h] at hx
  | cons y l ih =>
      rw [List.splitOnP_cons_eq_if_modifyHead] at h
      split at h
      · rcases List.mem_cons.mp h with rfl | h
        · cases hx
        · exact List.mem_cons_of_mem y (ih h hx)
      · cases hl : l.splitOnP p with
        | nil => exact absurd hl (List.splitOnP_ne_nil _ _)
        | cons first rest =>
            rw [hl] at h ih
            rcases List.mem_cons.mp h with rfl | h
            · rcases List.mem_cons.mp hx with rfl | hx
              · exact List.mem_cons_self
              · exact List.mem_cons_of_mem y (ih List.mem_cons_self hx)
            · exact List.mem_cons_of_mem y (ih (List.mem_cons_of_mem _ h) hx)

/-- The path with these segments. -/
def joinSegments (names : List String) : String :=
  .ofList (['/'].intercalate (names.map String.toList))

theorem joinSegments_segments (path : String) : joinSegments (segments path) = path := by
  have hmap : (segments path).map String.toList = path.toList.splitOn '/' := by
    simp [segments, Function.comp_def]
  rw [joinSegments, hmap, List.intercalate_splitOn, String.ofList_toList]

theorem segments_injective : Function.Injective segments :=
  Function.LeftInverse.injective joinSegments_segments

theorem segments_joinSegments {names : List String} (hne : names ≠ [])
    (h : ∀ name ∈ names, '/' ∉ name.toList) : segments (joinSegments names) = names := by
  have hsplit : (['/'].intercalate (names.map String.toList)).splitOn '/' =
      names.map String.toList := by
    refine List.splitOn_intercalate '/' (fun l hl => ?_) (by simpa using hne)
    obtain ⟨name, hname, rfl⟩ := List.mem_map.mp hl
    exact h name hname
  rw [segments, joinSegments, String.toList_ofList, hsplit, List.map_map]
  simp [Function.comp_def]

theorem joinSegments_concat {names : List String} (hne : names ≠ []) (name : String) :
    joinSegments (names ++ [name]) = joinSegments names ++ "/" ++ name := by
  induction names with
  | nil => exact absurd rfl hne
  | cons first rest ih =>
      by_cases hrest : rest = []
      · rw [hrest, ← String.toList_inj]
        simp [joinSegments, String.toList_append, List.intercalate_cons_cons]
      · have hrec := congrArg String.toList (ih hrest)
        rw [← String.toList_inj]
        simp only [joinSegments, String.toList_append, String.toList_ofList] at hrec
        simp only [List.map_append, List.map_singleton] at hrec
        simpa [joinSegments, String.toList_append, List.intercalate_cons_of_ne_nil, hrest]
          using hrec

/-- Names as one text, between slashes. -/
def joinText (names : List (List Char)) : List Char := ['/'].intercalate names

theorem joinText_cons_cons (first second : List Char) (rest : List (List Char)) :
    joinText (first :: second :: rest) = first ++ '/' :: joinText (second :: rest) := by
  rw [joinText, List.intercalate_cons_cons, List.append_assoc]
  rfl

theorem joinText_singleton (name : List Char) : joinText [name] = name :=
  List.intercalate_singleton

theorem joinText_append {front back : List (List Char)} (hfront : front ≠ []) (hback : back ≠ []) :
    joinText (front ++ back) = joinText front ++ '/' :: joinText back :=
  intercalate_append hfront hback

end Zos.Lib
