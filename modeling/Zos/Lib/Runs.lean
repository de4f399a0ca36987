import Mathlib.Data.List.TakeWhile
import Zos.Lib.Path

/-!
# Runs of a class

The runs of a class in a list are its longest non-empty pieces whose members are all of the class.
A text is taken apart in this way by words, by blanks and by separators alike.
-/

namespace Zos.Lib

variable {α : Type}

def runs (p : α → Bool) (l : List α) : List (List α) := (l.splitOnP (!p ·)).filter (· ≠ [])

theorem runs_append_cons {p : α → Bool} (front back : List α) {x : α} (hx : ¬ p x = true) :
    runs p (front ++ x :: back) = runs p front ++ runs p back := by
  rw [runs, List.splitOnP_append_cons _ _ (by simpa using hx), List.filter_append]
  rfl

theorem runs_of_all {p : α → Bool} {l : List α} (h : ∀ x ∈ l, p x = true) :
    runs p l = if l = [] then [] else [l] := by
  rw [runs, List.splitOnP_eq_singleton fun x hx => by simpa using h x hx]
  split <;> simp_all

/-- A list has no member outside the class, or a first one. -/
theorem runs_induction (p : α → Bool) {motive : List α → Prop}
    (hall : ∀ l, (∀ x ∈ l, p x = true) → motive l)
    (hsplit : ∀ front x back, (∀ y ∈ front, p y = true) → ¬ p x = true → motive back →
      motive (front ++ x :: back)) (l : List α) : motive l := by
  induction hn : l.length using Nat.strongRecOn generalizing l with
  | _ n ih =>
      have hfront : ∀ y ∈ l.takeWhile p, p y = true := fun y hy => List.mem_takeWhile_imp hy
      cases hrest : l.dropWhile p with
      | nil =>
          refine hall l ?_
          rwa [← List.takeWhile_append_dropWhile (p := p) (l := l), hrest, List.append_nil]
      | cons x back =>
          have hl : l = l.takeWhile p ++ x :: back := by
            rw [← hrest, List.takeWhile_append_dropWhile]
          have hx : ¬ p x = true := by
            have hhead := List.head_dropWhile_not p (w := by rw [hrest]; simp)
            simpa [hrest] using hhead
          rw [hl]
          refine hsplit _ _ _ hfront hx (ih back.length ?_ back rfl)
          rw [← hn, hl, List.length_append, List.length_cons]
          omega

theorem runs_congr {p q : α → Bool} {l : List α} (h : ∀ x ∈ l, p x = q x) :
    runs p l = runs q l := by
  induction l using runs_induction p with
  | hall l hl => rw [runs_of_all hl, runs_of_all fun x hx => (h x hx).symm.trans (hl x hx)]
  | hsplit front x back hfront hx ih =>
      have hx' : ¬ q x = true := h x (by simp) ▸ hx
      have hfront' : ∀ y ∈ front, q y = true := fun y hy =>
        (h y (List.mem_append_left _ hy)).symm.trans (hfront y hy)
      rw [runs_append_cons _ _ hx, runs_append_cons _ _ hx', runs_of_all hfront,
        runs_of_all hfront', ih fun y hy => h y (by simp [hy])]

theorem mem_runs {p : α → Bool} {l t : List α} (h : t ∈ runs p l) :
    t ≠ [] ∧ (∀ x ∈ t, p x = true) ∧ t <:+: l := by
  induction l using runs_induction p with
  | hall l hl =>
      rw [runs_of_all hl] at h
      split at h
      · cases h
      · next hne =>
          cases List.mem_singleton.mp h
          exact ⟨hne, hl, List.infix_rfl⟩
  | hsplit front x back hfront hx ih =>
      rw [runs_append_cons _ _ hx, runs_of_all hfront] at h
      rcases List.mem_append.mp h with h | h
      · split at h
        · cases h
        · next hne =>
            cases List.mem_singleton.mp h
            exact ⟨hne, hfront, (List.prefix_append _ _).isInfix⟩
      · obtain ⟨hne, hp, hinside⟩ := ih h
        exact ⟨hne, hp, hinside.trans ⟨front ++ [x], [], by simp⟩⟩

/-- What is of the class lies on one side of something that is not. -/
theorem infix_of_infix_append_cons {p : α → Bool} {s front back : List α} {x : α}
    (hs : ∀ y ∈ s, p y = true) (hx : ¬ p x = true) (h : s <:+: front ++ x :: back) :
    s <:+: front ∨ s <:+: back := by
  obtain ⟨a, b, h⟩ := h
  have hnot : x ∉ s := fun hmem => hx (hs x hmem)
  rcases List.append_eq_append_iff.mp h with ⟨c, hfront, -⟩ | ⟨c, hfront, hback⟩
  · exact .inl ⟨a, c, hfront.symm⟩
  · cases c with
    | nil => exact .inl ⟨a, [], by simpa using hfront⟩
    | cons y c =>
        obtain ⟨rfl, rfl⟩ := List.cons.inj hback
        rcases List.append_eq_append_iff.mp hfront with ⟨d, -, hs⟩ | ⟨d, -, hs⟩
        · exact absurd (hs ▸ by simp) hnot
        · cases d with
          | nil => exact absurd (by simp at hs; simp [← hs]) hnot
          | cons z d =>
              obtain ⟨rfl, rfl⟩ := List.cons.inj hs
              exact .inr ⟨d, b, by simp⟩

/-- What is of the class lies in one run. -/
theorem exists_run_of_infix {p : α → Bool} {s l : List α} (hne : s ≠ [])
    (hs : ∀ y ∈ s, p y = true) (h : s <:+: l) : ∃ t ∈ runs p l, s <:+: t := by
  induction l using runs_induction p with
  | hall l hl =>
      have hl' : l ≠ [] := by
        rintro rfl
        exact hne (List.infix_nil.mp h)
      exact ⟨l, by simp [runs_of_all hl, hl'], h⟩
  | hsplit front x back hfront hx ih =>
      rw [runs_append_cons _ _ hx]
      rcases infix_of_infix_append_cons hs hx h with h | h
      · have hfront' : front ≠ [] := by
          rintro rfl
          exact hne (List.infix_nil.mp h)
        exact ⟨front, by simp [runs_of_all hfront, hfront'], h⟩
      · obtain ⟨t, ht, hst⟩ := ih h
        exact ⟨t, List.mem_append_right _ ht, hst⟩

/-- The runs of a smaller class can be looked for in the runs of a larger one. -/
theorem runs_flatMap {p q : α → Bool} (hpq : ∀ x, p x = true → q x = true) (l : List α) :
    (runs q l).flatMap (runs p) = runs p l := by
  induction l using runs_induction q with
  | hall l hl =>
      rw [runs_of_all hl]
      split
      · next hnil =>
          rw [hnil]
          rfl
      · simp
  | hsplit front x back hfront hx ih =>
      have hx' : ¬ p x = true := fun hp => hx (hpq x hp)
      rw [runs_append_cons _ _ hx, runs_append_cons _ _ hx', List.flatMap_append, ih,
        runs_of_all hfront]
      split
      · next hnil =>
          rw [hnil]
          rfl
      · simp

end Zos.Lib
