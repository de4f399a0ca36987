import Mathlib.Data.List.Basic
import Mathlib.Order.Lattice

/-!
# Paging with cursors

A list is handed out page by page. Each reply but the last carries a cursor made of its last row,
and the next request gets the rows that come after that cursor. Whether the pages put together
are the list depends on the cursors alone: each has to be accepted, and to lead to the row after
the one it was made of.
-/

namespace Zos.Lib

structure Pager (α κ : Type) where
  cursorOf : α → κ
  accepts : κ → Bool
  after : κ → α → Bool

namespace Pager

variable {α κ : Type} (pager : Pager α κ) (rows : List α)

/-- The rows a request is about, or none if its cursor is refused. -/
def rest : Option κ → Option (List α)
  | none => some rows
  | some cursor => if pager.accepts cursor then some (rows.filter (pager.after cursor)) else none

/-- The pages that requests with these limits get, put together; `none` if a cursor is refused or
there are more pages than requests. -/
def follow : List Nat → Option κ → Option (List α)
  | [], _ => none
  | limit :: limits, cursor => do
      let found ← pager.rest rows cursor
      if found.length ≤ limit then return found
      let last ← (found.take limit).getLast?
      return found.take limit ++ (← follow limits (some (pager.cursorOf last)))

/-- Whatever allowed limits there are, the pages are the list. -/
def Complete (allowed : Nat → Prop) : Prop :=
  ∀ limits : List Nat, (∀ limit ∈ limits, allowed limit) → rows.length < limits.length →
    pager.follow rows limits none = some rows

variable {pager rows} {front after : List α} {a : α}

section Sorted

variable {β : Type} [LinearOrder β] {key : α → β}

/-- Sorting rows with different keys puts them in strict order. -/
theorem pairwise_mergeSort (h : (rows.map key).Nodup) :
    (rows.mergeSort (key · ≤ key ·)).Pairwise (key · < key ·) := by
  have hle : (rows.mergeSort (key · ≤ key ·)).Pairwise (key · ≤ key ·) := by
    refine (List.pairwise_mergeSort ?_ ?_ rows).imp (by simp)
    · intro a b c
      simpa using le_trans
    · intro a b
      simpa using le_total (key a) (key b)
  have hne : (rows.mergeSort (key · ≤ key ·)).Pairwise (key · ≠ key ·) := by
    rw [← List.pairwise_map, ← List.nodup_iff_pairwise_ne]
    exact ((List.mergeSort_perm _ _).map key).nodup_iff.mpr h
  exact (hle.and hne).imp fun ⟨hab, hdistinct⟩ => lt_of_le_of_ne hab hdistinct

/-- An accepted cursor that compares as the key of its row leads to what comes after the row. -/
theorem rest_of_sorted (h : rows.Pairwise (key · < key ·)) (hrows : rows = front ++ a :: after)
    (haccepts : pager.accepts (pager.cursorOf a) = true)
    (hafter : ∀ b ∈ rows, pager.after (pager.cursorOf a) b = true ↔ key a < key b) :
    pager.rest rows (some (pager.cursorOf a)) = some after := by
  rw [rest, if_pos haccepts, List.filter_congr fun b hb => Bool.eq_iff_iff.mpr
    ((hafter b hb).trans decide_eq_true_iff.symm)]
  rw [hrows] at h ⊢
  obtain ⟨-, hback, hcross⟩ := List.pairwise_append.mp h
  obtain ⟨hlater, -⟩ := List.pairwise_cons.mp hback
  have hfront : front.filter (fun b => decide (key a < key b)) = [] := by
    rw [List.filter_eq_nil_iff]
    intro b hb
    simpa using (hcross b hb a List.mem_cons_self).le
  have hkept : after.filter (fun b => decide (key a < key b)) = after := by
    rw [List.filter_eq_self]
    intro b hb
    simpa using hlater b hb
  rw [List.filter_append, hfront, List.filter_cons_of_neg (by simp), hkept, List.nil_append]

/-- Of two rows the one with the smaller key is followed by the other. -/
theorem split_of_lt {b : α} (h : rows.Pairwise (key · < key ·)) (ha : a ∈ rows) (hb : b ∈ rows)
    (hlt : key a < key b) : ∃ front after, rows = front ++ a :: after ∧ b ∈ after := by
  obtain ⟨front, after, rfl⟩ := List.append_of_mem ha
  refine ⟨front, after, rfl, ?_⟩
  obtain hfront | hself | hafter := (List.mem_append.mp hb).imp_right List.mem_cons.mp
  · exact absurd hlt (lt_asymm ((List.pairwise_append.mp h).2.2 b hfront a List.mem_cons_self))
  · exact absurd hlt (hself ▸ lt_irrefl _)
  · exact hafter

end Sorted

/-- The cursor of a page that is not the last one leads to what the page has left out. -/
theorem exists_last_of_take (hexact : ∀ front a after, rows = front ++ a :: after → after ≠ [] →
      pager.rest rows (some (pager.cursorOf a)) = some after)
    (hrows : rows = front ++ after) {limit : Nat} (hpos : 0 < limit)
    (hmore : limit < after.length) : ∃ last, (after.take limit).getLast? = some last ∧
      pager.rest rows (some (pager.cursorOf last)) = some (after.drop limit) := by
  have hne : after.take limit ≠ [] := by
    simp only [ne_eq, List.take_eq_nil_iff, not_or]
    exact ⟨by omega, List.ne_nil_of_length_pos (by omega)⟩
  obtain ⟨shown, last, hshown⟩ := (List.eq_nil_or_concat _).resolve_left hne
  rw [List.concat_eq_append] at hshown
  have hsplit : rows = (front ++ shown) ++ last :: after.drop limit := by
    conv_lhs => rw [hrows, ← List.take_append_drop limit after, hshown]
    simp
  have hdrop : after.drop limit ≠ [] := by
    refine List.ne_nil_of_length_pos ?_
    rw [List.length_drop]
    omega
  exact ⟨last, by rw [hshown, List.getLast?_concat], hexact _ _ _ hsplit hdrop⟩

/-- From a request for a suffix on, the pages are that suffix. -/
theorem follow_eq (hexact : ∀ front a after, rows = front ++ a :: after → after ≠ [] →
      pager.rest rows (some (pager.cursorOf a)) = some after)
    {limits : List Nat} (hlimits : ∀ limit ∈ limits, 0 < limit) {cursor : Option κ}
    (hrows : rows = front ++ after) (hrest : pager.rest rows cursor = some after)
    (hlength : after.length < limits.length) : pager.follow rows limits cursor = some after := by
  induction limits generalizing front after cursor with
  | nil => exact absurd hlength (Nat.not_lt_zero _)
  | cons limit limits ih =>
      rw [List.forall_mem_cons] at hlimits
      rw [follow, hrest]
      simp only [Option.bind_eq_bind, Option.bind_some]
      split
      · rfl
      · next hmore =>
          obtain ⟨last, hlast, hnext⟩ :=
            exists_last_of_take hexact hrows hlimits.1 (Nat.not_le.mp hmore)
          have htail : pager.follow rows limits (some (pager.cursorOf last)) =
              some (after.drop limit) := by
            have hparts : rows = (front ++ after.take limit) ++ after.drop limit := by
              simp [hrows]
            refine ih hlimits.2 hparts hnext ?_
            rw [List.length_cons] at hlength
            rw [List.length_drop]
            omega
          rw [hlast]
          simp only [Option.bind_some, htail]
          exact congrArg some (List.take_append_drop ..)

/-- If each cursor leads to what comes after its row, the pages are the list. -/
theorem complete_of_exact (hexact : ∀ front a after, rows = front ++ a :: after → after ≠ [] →
    pager.rest rows (some (pager.cursorOf a)) = some after)
    {allowed : Nat → Prop} (hallowed : ∀ limit, allowed limit → 0 < limit) :
    pager.Complete rows allowed :=
  fun _ hlimits hlength => follow_eq hexact
    (fun limit hlimit => hallowed limit (hlimits limit hlimit)) (List.nil_append rows).symm rfl
    hlength

/-- A page of one row: its cursor led to that row, and the next one to the rest. -/
theorem follow_one {limits : List Nat} {cursor : Option κ}
    (h : pager.follow rows (1 :: limits) cursor = some (a :: after)) :
    (∃ found, pager.rest rows cursor = some found ∧ found.head? = some a) ∧
      (after ≠ [] → pager.follow rows limits (some (pager.cursorOf a)) = some after) := by
  rw [follow] at h
  cases hrest : pager.rest rows cursor with
  | none =>
      rw [hrest] at h
      cases h
  | some found =>
      rw [hrest] at h
      simp only [Option.bind_eq_bind, Option.bind_some] at h
      split at h
      · next hone =>
          cases h
          exact ⟨⟨_, rfl, rfl⟩, fun hafter =>
            absurd (List.length_eq_zero_iff.mp (by simpa using hone)) hafter⟩
      · next hmore =>
          cases found with
          | nil => exact absurd (Nat.zero_le 1) hmore
          | cons first found =>
              simp only [List.take_succ_cons, List.take_zero, List.getLast?_singleton,
                Option.bind_some] at h
              cases htail : pager.follow rows limits (some (pager.cursorOf first)) with
              | none =>
                  rw [htail] at h
                  cases h
              | some tail =>
                  rw [htail] at h
                  cases h
                  exact ⟨⟨_, rfl, rfl⟩, fun _ => htail⟩

/-- Pages of one row each, up to the row before `after`. -/
theorem follow_ones {n : Nat} {cursor : Option κ} (hafter : after ≠ [])
    (h : pager.follow rows (List.replicate n 1) cursor = some (front ++ a :: after)) :
    ∃ m, pager.follow rows (List.replicate m 1) (some (pager.cursorOf a)) = some after := by
  induction front generalizing n cursor with
  | nil =>
      cases n with
      | zero => cases h
      | succ n => exact ⟨n, (follow_one h).2 hafter⟩
  | cons b front ih =>
      cases n with
      | zero => cases h
      | succ n => exact ih ((follow_one h).2 (by simp))

/-- If the pages are the list whatever the limits, each cursor leads to the row after its own. -/
theorem Complete.leads {allowed : Nat → Prop} (h : pager.Complete rows allowed)
    (hone : allowed 1) (hrows : rows = front ++ a :: after) (hafter : after ≠ []) :
    ∃ found, pager.rest rows (some (pager.cursorOf a)) = some found ∧
      found.head? = after.head? := by
  have hall : pager.follow rows (List.replicate (rows.length + 1) 1) none = some rows := by
    refine h _ ?_ (by simp)
    intro limit hlimit
    rw [List.eq_of_mem_replicate hlimit]
    exact hone
  rw [congrArg some hrows] at hall
  obtain ⟨m, hm⟩ := follow_ones hafter hall
  obtain ⟨b, after, rfl⟩ := List.exists_cons_of_ne_nil hafter
  cases m with
  | zero => cases hm
  | succ m => exact (follow_one hm).1

section Bounds

variable {β : Type} [LinearOrder β] {key bound : α → β}

/-- Cursors that compare as bounds, each between its row and the next one, lead to what comes after
their rows. -/
theorem exact_of_bounds (hsorted : rows.Pairwise (key · < key ·))
    (haccepts : ∀ a ∈ rows, pager.accepts (pager.cursorOf a) = true)
    (hafter : ∀ a ∈ rows, ∀ b ∈ rows, pager.after (pager.cursorOf a) b = true ↔ bound a < key b)
    (h : ∀ a ∈ rows, ∀ b ∈ rows, key a < key b → key a ≤ bound a ∧ bound a < key b)
    (front : List α) (a : α) (after : List α) (hrows : rows = front ++ a :: after)
    (hne : after ≠ []) : pager.rest rows (some (pager.cursorOf a)) = some after := by
  have ha : a ∈ rows := by simp [hrows]
  refine rest_of_sorted hsorted hrows (haccepts a ha) fun b hb => (hafter a ha b hb).trans ?_
  refine ⟨fun hbound => ?_, fun hlt => (h a ha b hb hlt).2⟩
  obtain ⟨next, rest, rfl⟩ := List.exists_cons_of_ne_nil hne
  have hlater : key a < key next := by
    rw [hrows] at hsorted
    exact (List.pairwise_cons.mp (List.pairwise_append.mp hsorted).2.1).1 next (by simp)
  exact (h a ha next (by simp [hrows]) hlater).1.trans_lt hbound

/-- The pages are the list exactly if the bound of each cursor lies between its row and the next
one. -/
theorem complete_iff_of_bounds (hsorted : rows.Pairwise (key · < key ·))
    (haccepts : ∀ a ∈ rows, pager.accepts (pager.cursorOf a) = true)
    (hafter : ∀ a ∈ rows, ∀ b ∈ rows, pager.after (pager.cursorOf a) b = true ↔ bound a < key b)
    {allowed : Nat → Prop} (hone : allowed 1) (hallowed : ∀ limit, allowed limit → 0 < limit) :
    pager.Complete rows allowed ↔
      ∀ a ∈ rows, ∀ b ∈ rows, key a < key b → key a ≤ bound a ∧ bound a < key b := by
  refine ⟨fun h a ha b hb hlt => ?_,
    fun h => complete_of_exact (exact_of_bounds hsorted haccepts hafter h) hallowed⟩
  obtain ⟨front, after, hrows, hin⟩ := split_of_lt hsorted ha hb hlt
  obtain ⟨found, hfound, hhead⟩ := h.leads hone hrows (List.ne_nil_of_mem hin)
  rw [rest, if_pos (haccepts a ha), Option.some.injEq] at hfound
  obtain ⟨next, rest, rfl⟩ := List.exists_cons_of_ne_nil (List.ne_nil_of_mem hin)
  have hsplit := hrows ▸ hsorted
  obtain ⟨-, hback, hcross⟩ := List.pairwise_append.mp hsplit
  obtain ⟨hlater, hrest⟩ := List.pairwise_cons.mp hback
  have hnext : bound a < key next := by
    have hmem : next ∈ found := List.mem_of_mem_head? hhead
    rw [← hfound] at hmem
    exact (hafter a ha next (List.mem_filter.mp hmem).1).mp (List.mem_filter.mp hmem).2
  refine ⟨?_, ?_⟩
  · -- a row that its own cursor selects would come again
    by_contra hbound
    have hself := (hafter a ha a ha).mpr (not_le.mp hbound)
    rw [← hfound, hrows, List.filter_append, List.filter_cons_of_pos hself] at hhead
    cases hfront : front.filter (pager.after (pager.cursorOf a)) with
    | nil =>
        rw [hfront] at hhead
        cases hhead
        exact lt_irrefl _ (hlater a (by simp))
    | cons first _ =>
        rw [hfront] at hhead
        cases hhead
        have hfirst : next ∈ front := (List.mem_filter.mp (hfront ▸ List.mem_cons_self ..)).1
        exact lt_asymm (hlater next (by simp)) (hcross next hfirst a (by simp))
  · rcases List.mem_cons.mp hin with rfl | hin
    · exact hnext
    · exact hnext.trans ((List.pairwise_cons.mp hrest).1 b hin)

end Bounds

end Pager

end Zos.Lib
