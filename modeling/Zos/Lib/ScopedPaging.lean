import Zos.Lib.Paging

/-!
# Pages of pages

A reply may be put together from several pages of a list whose rows are only kept if they belong
to a scope. It asks for as many rows as are still missing, reads a bounded number of pages, and
hands out the cursor of the last one. If each cursor leads to what comes after its row, such
replies hand out the kept rows of the list.
-/

namespace Zos.Lib.Pager

variable {α κ : Type} (pager : Pager α κ) (rows : List α)

/-- One page and the cursor for the next one. -/
def page (limit : Nat) (cursor : Option κ) : Option (List α × Option κ) := do
  let found ← pager.rest rows cursor
  if found.length ≤ limit then return (found, none)
  let last ← (found.take limit).getLast?
  return (found.take limit, some (pager.cursorOf last))

/-- The rows of at most `pages` pages that are kept, `wanted` at most. -/
def gather (keep : α → Bool) : Nat → Nat → Option κ → Option (List α × Option κ)
  | 0, _, cursor => some ([], cursor)
  | pages + 1, wanted, cursor =>
    if wanted = 0 then some ([], cursor)
    else do
      let (found, next) ← pager.page rows wanted cursor
      let kept := found.filter keep
      match next with
      | none => return (kept, none)
      | some next => do
        let (more, last) ← gather keep pages (wanted - kept.length) (some next)
        return (kept ++ more, last)

/-- The replies to requests with these limits, put together. -/
def followGathered (keep : α → Bool) (pages : Nat) : List Nat → Option κ → Option (List α)
  | [], _ => none
  | limit :: limits, cursor => do
    let (found, next) ← pager.gather rows keep pages limit cursor
    match next with
    | none => return found
    | some next => return found ++ (← followGathered keep pages limits (some next))

/-- Whatever allowed limits there are, the replies are the kept rows of the list. -/
def GatheredComplete (keep : α → Bool) (pages : Nat) (allowed : Nat → Prop) : Prop :=
  ∀ limits : List Nat, (∀ limit ∈ limits, allowed limit) → rows.length < limits.length →
    pager.followGathered rows keep pages limits none = some (rows.filter keep)

/-- The state between two pages: the rows that are left, and what has been read. -/
structure Stands (cursor : Option κ) (front after : List α) : Prop where
  split : rows = front ++ after
  left : pager.rest rows cursor = some after

variable {pager rows} {front after : List α} {cursor : Option κ} {keep : α → Bool}

theorem page_eq (hexact : ∀ front a after, rows = front ++ a :: after → after ≠ [] →
      pager.rest rows (some (pager.cursorOf a)) = some after)
    (h : pager.Stands rows cursor front after) {limit : Nat} (hpos : 0 < limit) :
    (pager.page rows limit cursor = some (after, none)) ∨
      ∃ next, pager.page rows limit cursor = some (after.take limit, some next) ∧
        pager.Stands rows (some next) (front ++ after.take limit) (after.drop limit) ∧
        limit < after.length := by
  unfold page
  rw [h.left]
  simp only [Option.bind_eq_bind, Option.bind_some]
  by_cases hmore : after.length ≤ limit
  · exact .inl (if_pos hmore)
  · obtain ⟨last, hlast, hnext⟩ :=
      exists_last_of_take hexact h.split hpos (Nat.not_le.mp hmore)
    refine .inr ⟨pager.cursorOf last, ?_, ⟨by simp [h.split], hnext⟩, Nat.not_le.mp hmore⟩
    rw [if_neg hmore, hlast]
    rfl

/-- A reply hands out the kept ones of the rows it has read; if it has a cursor, that leads on. -/
theorem gather_eq (hexact : ∀ front a after, rows = front ++ a :: after → after ≠ [] →
      pager.rest rows (some (pager.cursorOf a)) = some after)
    (keep : α → Bool) (pages wanted : Nat) (h : pager.Stands rows cursor front after) :
    pager.gather rows keep pages wanted cursor = some (after.filter keep, none) ∨
      ∃ shown left next, after = shown ++ left ∧
        pager.gather rows keep pages wanted cursor = some (shown.filter keep, next) ∧
        pager.Stands rows next (front ++ shown) left ∧
        (0 < pages → 0 < wanted → next ≠ none ∧ shown ≠ []) ∧ (cursor ≠ none → next ≠ none) := by
  induction pages generalizing wanted cursor front after with
  | zero => exact .inr ⟨[], after, cursor, rfl, rfl, by simpa using h, by simp, fun h => h⟩
  | succ pages ih =>
      by_cases hwanted : wanted = 0
      · refine .inr ⟨[], after, cursor, rfl, by simp [gather, hwanted], by simpa using h, by omega,
          fun h => h⟩
      · have hpos : 0 < wanted := Nat.pos_of_ne_zero hwanted
        rcases page_eq hexact h hpos with hpage | ⟨next, hpage, hstands, hmore⟩
        · exact .inl (by simp [gather, hwanted, hpage])
        · have hshown : after.take wanted ≠ [] := by
            simp only [ne_eq, List.take_eq_nil_iff, not_or]
            exact ⟨hwanted, List.ne_nil_of_length_pos (by omega)⟩
          rcases ih (wanted - ((after.take wanted).filter keep).length) hstands with
            hlast | ⟨shown, left, last, hleft, hgather, hstands', -, hsome⟩
          · refine .inl ?_
            simp only [gather, hwanted, if_false, hpage, Option.bind_eq_bind, Option.bind_some,
              hlast]
            rw [← List.filter_append, List.take_append_drop]
            rfl
          · refine .inr ⟨after.take wanted ++ shown, left, last, ?_, ?_, ?_, fun _ _ => ?_,
              fun _ => hsome (by simp)⟩
            · rw [List.append_assoc, ← hleft, List.take_append_drop]
            · simp only [gather, hwanted, if_false, hpage, Option.bind_eq_bind, Option.bind_some,
                hgather]
              rw [← List.filter_append]
              rfl
            · rwa [← List.append_assoc]
            · exact ⟨hsome (by simp), by simp [hshown]⟩

/-- From a reply for a suffix on, the replies are the kept rows of the suffix. -/
theorem followGathered_eq (hexact : ∀ front a after, rows = front ++ a :: after → after ≠ [] →
      pager.rest rows (some (pager.cursorOf a)) = some after)
    {pages : Nat} (hpages : 0 < pages) {limits : List Nat} (hlimits : ∀ limit ∈ limits, 0 < limit)
    (h : pager.Stands rows cursor front after) (hlength : after.length < limits.length) :
    pager.followGathered rows keep pages limits cursor = some (after.filter keep) := by
  induction limits generalizing front after cursor with
  | nil => exact absurd hlength (Nat.not_lt_zero _)
  | cons limit limits ih =>
      rw [List.forall_mem_cons] at hlimits
      rcases gather_eq hexact keep pages limit h with
        hlast | ⟨shown, left, next, rfl, hgather, hstands, hmore, -⟩
      · simp [followGathered, hlast]
      · obtain ⟨hnext, hshown⟩ := hmore hpages hlimits.1
        obtain ⟨next, rfl⟩ := Option.ne_none_iff_exists'.mp hnext
        have hpos := List.length_pos_iff.mpr hshown
        have htail := ih hlimits.2 hstands (by simp at hlength; omega)
        simp [followGathered, hgather, htail]

theorem gatheredComplete_of_exact (hexact : ∀ front a after, rows = front ++ a :: after →
      after ≠ [] → pager.rest rows (some (pager.cursorOf a)) = some after)
    {pages : Nat} (hpages : 0 < pages) {allowed : Nat → Prop}
    (hallowed : ∀ limit, allowed limit → 0 < limit) :
    pager.GatheredComplete rows keep pages allowed :=
  fun _ hlimits hlength => followGathered_eq hexact hpages
    (fun limit hlimit => hallowed limit (hlimits limit hlimit))
    ⟨(List.nil_append rows).symm, rfl⟩ hlength

end Zos.Lib.Pager
