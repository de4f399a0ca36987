import Mathlib.Data.List.Forall2

/-!
# Tables as lists

A table whose rows are never deleted is a list, and a row is named by its
place. An `UPDATE … WHERE id = ?` is `List.modify`; an update that may touch
every row is `List.map`.
-/

namespace Zos.Lib

variable {α β : Type} {l : List α} {f : α → α} {i : Nat}

/-- An update row by row, seen as a relation between the rows before and after. -/
theorem forall₂_map {R : α → α → Prop} (h : ∀ x ∈ l, R x (f x)) :
    List.Forall₂ R l (l.map f) := by
  induction l with
  | nil => exact .nil
  | cons a l ih =>
      exact .cons (h a List.mem_cons_self) (ih fun x hx => h x (List.mem_cons_of_mem a hx))

theorem forall₂_modify {R : α → α → Prop} (hrefl : ∀ x, R x x)
    (h : ∀ x, l[i]? = some x → R x (f x)) : List.Forall₂ R l (l.modify i f) := by
  induction l generalizing i with
  | nil => simp
  | cons a l ih =>
      cases i with
      | zero =>
          rw [List.modify_zero_cons]
          exact .cons (h a rfl) (List.forall₂_same.mpr fun x _ => hrefl x)
      | succ i =>
          rw [List.modify_succ_cons]
          exact .cons (hrefl a) (ih fun x hx => h x (by simpa using hx))

theorem forall₂_trans {R : α → α → Prop} (htrans : ∀ x y z, R x y → R y z → R x z)
    {l₁ l₂ : List α} (h₁ : List.Forall₂ R l l₁) (h₂ : List.Forall₂ R l₁ l₂) :
    List.Forall₂ R l l₂ := by
  induction h₁ generalizing l₂ with
  | nil => exact h₂
  | cons hxy _ ih =>
      cases h₂ with
      | cons hyz hrest => exact .cons (htrans _ _ _ hxy hyz) (ih hrest)

theorem exists_of_forall₂ {R : α → β → Prop} {l' : List β} (h : List.Forall₂ R l l')
    {y : β} (hy : y ∈ l') : ∃ x ∈ l, R x y := by
  induction h with
  | nil => cases hy
  | @cons x y' l l' hxy _ ih =>
      rcases List.mem_cons.mp hy with rfl | hy
      · exact ⟨x, List.mem_cons_self, hxy⟩
      · obtain ⟨x', hx', hr⟩ := ih hy
        exact ⟨x', List.mem_cons_of_mem x hx', hr⟩

theorem exists_of_forall₂_left {R : α → β → Prop} {l' : List β} (h : List.Forall₂ R l l')
    {x : α} (hx : x ∈ l) : ∃ y ∈ l', R x y :=
  exists_of_forall₂ h.flip hx

/-- Rows that are changed only in what `p` does not look at are counted as
before. -/
theorem countP_of_forall₂ {p : α → Bool} {l' : List α}
    (h : List.Forall₂ (fun x y => p y = p x) l l') : l'.countP p = l.countP p := by
  induction h with
  | nil => rfl
  | cons hxy _ ih => rw [List.countP_cons, List.countP_cons, ih, hxy]

/-- The keys of the selected rows only get fewer when no row becomes selected
and the keys stay. -/
theorem sublist_of_forall₂ {p : α → Bool} {k : α → β} {l' : List α}
    (h : List.Forall₂ (fun x y => k y = k x ∧ (p y = true → p x = true)) l l') :
    ((l'.filter p).map k).Sublist ((l.filter p).map k) := by
  induction h with
  | nil => exact .slnil
  | @cons x y l l' hxy _ ih =>
      obtain ⟨hk, hp⟩ := hxy
      cases hy : p y with
      | true => simpa [List.filter_cons, hy, hp hy, hk] using ih
      | false =>
          cases hx : p x with
          | true => simpa [List.filter_cons, hy, hx] using ih.cons (k x)
          | false => simpa [List.filter_cons, hy, hx] using ih

/-- The same for the keys of rows that stand in several tables. -/
theorem flatMap_sublist_of_forall₂ {g : α → List β} {l' : List α}
    (h : List.Forall₂ (fun x y => (g y).Sublist (g x)) l l') :
    (l'.flatMap g).Sublist (l.flatMap g) := by
  induction h with
  | nil => exact .slnil
  | cons hxy _ ih =>
      rw [List.flatMap_cons, List.flatMap_cons]
      exact hxy.append ih

/-- What is erased does not count for a test that it fails. -/
theorem any_eraseP {p q : α → Bool} {x : α} (hfind : l.find? p = some x) (hq : q x = false) :
    (l.eraseP p).any q = l.any q := by
  induction l with
  | nil => rfl
  | cons y l ih =>
      by_cases hy : p y = true
      · rw [List.find?_cons_of_pos hy, Option.some.injEq] at hfind
        rw [List.eraseP_cons_of_pos hy, List.any_cons, hfind, hq, Bool.false_or]
      · rw [List.find?_cons_of_neg hy] at hfind
        rw [List.eraseP_cons_of_neg hy, List.any_cons, List.any_cons, ih hfind]

end Zos.Lib
