import Mathlib.Data.List.Forall2

/-!
# Computations that may fail

How to take apart an `Except` computation that is known to have succeeded.
-/

namespace Zos.Lib

variable {ε ε' α β : Type}

theorem bind_ok_iff {x : Except ε α} {f : α → Except ε β} {b : β} :
    (x >>= f) = .ok b ↔ ∃ a, x = .ok a ∧ f a = .ok b := by
  cases x with
  | error e => exact ⟨(fun h => nomatch h), fun ⟨_, h, _⟩ => nomatch h⟩
  | ok a => exact ⟨fun h => ⟨a, rfl, h⟩, fun ⟨a', ha, h⟩ => by cases ha; exact h⟩

theorem toOption_eq_some_iff {x : Except ε α} {a : α} : x.toOption = some a ↔ x = .ok a := by
  cases x with
  | error e => exact ⟨(fun h => nomatch h), fun h => nomatch h⟩
  | ok b => exact ⟨fun h => congrArg _ (Option.some.inj h), fun h => by cases h; rfl⟩

theorem mapError_ok_iff {x : Except ε α} {f : ε → ε'} {a : α} :
    x.mapError f = .ok a ↔ x = .ok a := by
  cases x with
  | error e => exact ⟨(fun h => nomatch h), fun h => nomatch h⟩
  | ok b => exact ⟨fun h => by cases h; rfl, fun h => by cases h; rfl⟩

/-- Each result of a pass over a list is that of its element. -/
theorem forall₂_of_mapM {f : α → Except ε β} {l : List α} {r : List β}
    (h : l.mapM f = .ok r) : List.Forall₂ (fun x y => f x = .ok y) l r := by
  induction l generalizing r with
  | nil =>
      cases h
      exact .nil
  | cons x l ih =>
      rw [List.mapM_cons] at h
      obtain ⟨y, hy, h⟩ := bind_ok_iff.mp h
      obtain ⟨ys, hys, h⟩ := bind_ok_iff.mp h
      cases h
      exact .cons hy (ih hys)

theorem mapM_ok_of_forall {f : α → Except ε β} {g : α → β} {l : List α}
    (h : ∀ x ∈ l, f x = .ok (g x)) : l.mapM f = .ok (l.map g) := by
  induction l with
  | nil => rfl
  | cons x l ih =>
      rw [List.mapM_cons, h x List.mem_cons_self,
        ih fun y hy => h y (List.mem_cons_of_mem x hy)]
      rfl

theorem exists_of_mem_mapM {f : α → Except ε β} {l : List α} {r : List β}
    (h : l.mapM f = .ok r) {y : β} (hy : y ∈ r) : ∃ x ∈ l, f x = .ok y := by
  have hpass := forall₂_of_mapM h
  clear h
  induction hpass with
  | nil => cases hy
  | cons hx _ ih =>
      rcases List.mem_cons.mp hy with rfl | hy
      · exact ⟨_, List.mem_cons_self, hx⟩
      · obtain ⟨x, hmem, hx⟩ := ih hy
        exact ⟨x, List.mem_cons_of_mem _ hmem, hx⟩

theorem ok_of_mapM {f : α → Except ε β} {l : List α} {r : List β} (h : l.mapM f = .ok r) {x : α}
    (hx : x ∈ l) : ∃ y, f x = .ok y := by
  have hpass := forall₂_of_mapM h
  clear h
  induction hpass with
  | nil => cases hx
  | cons hy _ ih =>
      rcases List.mem_cons.mp hx with rfl | hx
      · exact ⟨_, hy⟩
      · exact ih hx

theorem ok_of_forM {f : α → Except ε Unit} {l : List α} (h : l.forM f = .ok ()) {x : α}
    (hx : x ∈ l) : f x = .ok () := by
  induction l with
  | nil => cases hx
  | cons y l ih =>
      obtain ⟨_, hy, h⟩ := bind_ok_iff.mp h
      rcases List.mem_cons.mp hx with rfl | hmem
      · exact hy
      · exact ih h hmem

/-- A pass that carries something along comes by every element. -/
theorem ok_of_foldlM {f : β → α → Except ε β} {l : List α} {b b' : β}
    (h : l.foldlM f b = .ok b') {x : α} (hx : x ∈ l) : ∃ c c', f c x = .ok c' := by
  induction l generalizing b with
  | nil => cases hx
  | cons y l ih =>
      rw [List.foldlM_cons] at h
      obtain ⟨c, hy, h⟩ := bind_ok_iff.mp h
      rcases List.mem_cons.mp hx with rfl | hmem
      · exact ⟨b, c, hy⟩
      · exact ih h hmem

/-- What the results of a pass have together is what they have one by one. -/
theorem mem_flatten_of_mapM {f : α → Except ε (List β)} {l : List α} {r : List (List β)}
    (h : l.mapM f = .ok r) {y : β} :
    y ∈ r.flatten ↔ ∃ x ∈ l, ∃ ys, f x = .ok ys ∧ y ∈ ys := by
  have hpass := forall₂_of_mapM h
  clear h
  induction hpass with
  | nil => simp
  | cons hx _ ih => simp [hx, ih]

end Zos.Lib
