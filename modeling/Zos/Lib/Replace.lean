import Mathlib.Data.List.Infix

/-!
# Replacing matches

A global replacement goes through a list from the left. `matchAt` says whether there is a match at
the head of a list, what it is replaced by and how long it is; behind a match the search goes on.
-/

namespace Zos.Lib

variable {α : Type}

def replaceMatches (matchAt : List α → Option (List α × Nat)) : Nat → List α → List α
  | _, [] => []
  | skip + 1, _ :: rest => replaceMatches matchAt skip rest
  | 0, a :: rest =>
    match matchAt (a :: rest) with
    | some (replacement, length) => replacement ++ replaceMatches matchAt (length - 1) rest
    | none => a :: replaceMatches matchAt 0 rest

section

variable {matchAt : List α → Option (List α × Nat)} {a : α} {l : List α}

theorem replaceMatches_cons (h : matchAt (a :: l) = none) :
    replaceMatches matchAt 0 (a :: l) = a :: replaceMatches matchAt 0 l := by
  rw [replaceMatches, h]

/-- What belongs to a match is passed over. -/
theorem replaceMatches_append (passed l : List α) :
    replaceMatches matchAt passed.length (passed ++ l) = replaceMatches matchAt 0 l := by
  induction passed with
  | nil => rfl
  | cons a passed ih => exact ih

end

variable [DecidableEq α]

/-- `split` by a list that is not empty, and `join`. -/
def replaceAll (old new : List α) : List α → List α :=
  replaceMatches (fun l => if old.isPrefixOf l then some (new, old.length) else none) 0

variable {old new l : List α} {a : α}

theorem replaceAll_cons (h : ¬ old <+: a :: l) :
    replaceAll old new (a :: l) = a :: replaceAll old new l :=
  replaceMatches_cons (if_neg (by rwa [List.isPrefixOf_iff_prefix]))

/-- A match at the front is replaced. -/
theorem replaceAll_append (a : α) (old new l : List α) :
    replaceAll (a :: old) new (a :: old ++ l) = new ++ replaceAll (a :: old) new l := by
  have hstarts : (a :: old).isPrefixOf (a :: (old ++ l)) = true :=
    List.isPrefixOf_iff_prefix.mpr (List.prefix_append (a :: old) l)
  rw [replaceAll, List.cons_append, replaceMatches, if_pos hstarts]
  exact congrArg (new ++ ·) (replaceMatches_append old l)

/-- No match starts where its first element is not. -/
theorem replaceAll_append_of_notMem {front : List α} (h : a ∉ front) :
    replaceAll (a :: old) new (front ++ l) = front ++ replaceAll (a :: old) new l := by
  induction front with
  | nil => rfl
  | cons b front ih =>
      rw [List.mem_cons, not_or] at h
      rw [List.cons_append, replaceAll_cons, ih h.2]
      · rfl
      · intro hstarts
        exact h.1 (List.cons_prefix_cons.mp hstarts).1

/-- Another text of the same length with the same first element stays. -/
theorem replaceAll_append_of_ne {other : List α} (h : a ∉ other)
    (hlength : other.length = old.length) (hne : other ≠ old) :
    replaceAll (a :: old) new (a :: other ++ l) = a :: other ++ replaceAll (a :: old) new l := by
  rw [List.cons_append, replaceAll_cons, replaceAll_append_of_notMem h]
  · rfl
  · intro hstarts
    have hfront := (List.cons_prefix_cons.mp hstarts).2
    exact hne (List.prefix_of_prefix_length_le (List.prefix_append other l) hfront
      hlength.le |>.eq_of_length hlength)

end Zos.Lib
