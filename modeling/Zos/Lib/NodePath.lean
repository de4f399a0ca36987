import Zos.Lib.FileSystem

/-!
# Paths as Node computes them

`path.resolve`, `path.join`, `path.relative` and `path.basename` on POSIX, which work on
the text alone. An absolute path without dots is the list of its names.
-/

namespace Zos.Lib.NodePath

open Zos.Lib.Posix

/-- One more segment; `above` keeps the dots that lead out of a relative path. -/
def push (above : Bool) (names : List String) (name : String) : List String :=
  if name = "" ∨ name = "." then names
  else if name = ".." then
    if above ∧ (names = [] ∨ names.getLast? = some "..") then names ++ [".."]
    else names.dropLast
  else names ++ [name]

/-- `path.resolve(base, path)` for a relative path, and `path.join(base, path)`. -/
def resolve (base : Location) (path : String) : Location :=
  (segments path).foldl (push false) base

def commonLength : Location → Location → Nat
  | name :: rest, name' :: rest' => if name = name' then commonLength rest rest' + 1 else 0
  | _, _ => 0

/-- `path.relative`. -/
def relative (base path : Location) : String :=
  let common := commonLength base path
  joinSegments (List.replicate (base.length - common) ".." ++ path.drop common)

variable {base path : Location}

theorem prefix_of_commonLength (h : base.length ≤ commonLength base path) : base <+: path := by
  induction base generalizing path with
  | nil => exact List.nil_prefix
  | cons name rest ih =>
      cases path with
      | nil => exact absurd h (Nat.not_succ_le_zero _)
      | cons name' rest' =>
          rw [commonLength] at h
          split at h
          · next hname =>
              rw [hname, List.prefix_cons_inj]
              exact ih (Nat.le_of_succ_le_succ h)
          · exact absurd h (Nat.not_succ_le_zero _)

theorem commonLength_append (base rest : Location) :
    commonLength base (base ++ rest) = base.length := by
  induction base with
  | nil => rfl
  | cons name base ih => rw [List.cons_append, commonLength, if_pos rfl, ih, List.length_cons]

/-- From a directory to what is below it. -/
theorem relative_append (base rest : Location) :
    relative base (base ++ rest) = joinSegments rest := by
  simp [relative, commonLength_append]

theorem toList_joinSegments_cons (name : String) (rest : List String) :
    ∃ more, (joinSegments (name :: rest)).toList = name.toList ++ more := by
  cases rest with
  | nil => exact ⟨[], by simp [joinSegments]⟩
  | cons first rest =>
      exact ⟨'/' :: ['/'].intercalate ((first :: rest).map String.toList),
        by simp [joinSegments, List.intercalate_cons_cons]⟩

/-- A path that does not lead down begins with two dots. -/
theorem relative_of_not_prefix (h : ¬base <+: path) :
    ∃ more, relative base path = joinSegments (".." :: more) := by
  have hlt : commonLength base path < base.length := by
    by_contra hle
    exact h (prefix_of_commonLength (Nat.not_lt.mp hle))
  obtain ⟨n, hn⟩ := Nat.exists_eq_succ_of_ne_zero (Nat.sub_ne_zero_of_lt hlt)
  exact ⟨List.replicate n ".." ++ path.drop (commonLength base path), by
    simp only [relative, hn, Nat.succ_eq_add_one, List.replicate_succ, List.cons_append]⟩

theorem prefix_of_relative (h : (relative base path).toList.take 2 ≠ ['.', '.']) :
    base <+: path := by
  by_contra hnot
  obtain ⟨names, hnames⟩ := relative_of_not_prefix hnot
  obtain ⟨more, hmore⟩ := toList_joinSegments_cons ".." names
  refine h ?_
  rw [hnames, hmore]
  rfl

/-! ## Paths of valid names -/

section Valid

variable {names : List String} {name : String} (h : ∀ name ∈ names, ValidName name)

include h

theorem segments_valid (hne : names ≠ []) : segments (joinSegments names) = names :=
  segments_joinSegments hne fun name hname => (h name hname).2.2.2

theorem isAbsolute_joinSegments : isAbsolute (joinSegments names) = false := by
  cases names with
  | nil => rfl
  | cons name rest =>
      obtain ⟨hne, -, -, hslash⟩ := h name List.mem_cons_self
      obtain ⟨more, hmore⟩ := toList_joinSegments_cons name rest
      unfold isAbsolute
      rw [hmore]
      cases hchars : name.toList with
      | nil => exact absurd (String.toList_inj.mp hchars) hne
      | cons c chars =>
          rw [hchars] at hslash
          have hc : c ≠ '/' := fun heq => hslash (heq ▸ List.mem_cons_self)
          simpa using hc

end Valid

end Zos.Lib.NodePath
