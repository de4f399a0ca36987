import Mathlib.Data.List.Basic

/-!
# Names between separators

A text that is joined from names is split into these names again, so a text that goes on behind
another one and a separator has more names, and nothing else is different.
-/

namespace Zos.Lib

section

variable {α : Type} {sep : α}

theorem intercalate_append {front back : List (List α)} (hfront : front ≠ []) (hback : back ≠ []) :
    [sep].intercalate (front ++ back) =
      [sep].intercalate front ++ sep :: [sep].intercalate back := by
  induction front with
  | nil => exact absurd rfl hfront
  | cons first rest ih =>
      cases rest with
      | nil =>
          obtain ⟨second, back, rfl⟩ := List.exists_cons_of_ne_nil hback
          rw [List.singleton_append, List.intercalate_cons_cons, List.intercalate_singleton,
            List.append_assoc]
          rfl
      | cons second rest =>
          have hrest := ih (List.cons_ne_nil _ _)
          rw [List.cons_append, List.cons_append] at *
          rw [List.intercalate_cons_cons, List.intercalate_cons_cons, hrest]
          simp only [List.append_assoc]

theorem notMem_intercalate {c : α} {names : List (List α)} (hc : c ≠ sep)
    (h : ∀ name ∈ names, c ∉ name) : c ∉ [sep].intercalate names := by
  induction names with
  | nil => exact List.not_mem_nil
  | cons first rest ih =>
      have hfirst := h first List.mem_cons_self
      cases rest with
      | nil => rwa [List.intercalate_singleton]
      | cons second rest =>
          have hrest := ih fun name hname => h name (List.mem_cons_of_mem _ hname)
          rw [List.intercalate_cons_cons]
          simp [hfirst, hc, hrest]

variable [DecidableEq α]

theorem splitOn_append_sep (front back : List α) :
    (front ++ sep :: back).splitOn sep = front.splitOn sep ++ back.splitOn sep := by
  rw [List.splitOn, List.splitOnP_append_cons _ _ (by simp)]
  rfl

theorem intercalate_injective {front names : List (List α)} (hfront : front ≠ [])
    (hnames : names ≠ []) (hfrontNames : ∀ name ∈ front, sep ∉ name)
    (h : ∀ name ∈ names, sep ∉ name) (heq : [sep].intercalate front = [sep].intercalate names) :
    front = names := by
  rw [← List.splitOn_intercalate sep hfrontNames hfront, heq,
    List.splitOn_intercalate sep h hnames]

/-- A text that goes on behind a separator. -/
theorem names_of_append_sep {front names : List (List α)} {rest : List α} (hfront : front ≠ [])
    (hnames : names ≠ []) (hfrontNames : ∀ name ∈ front, sep ∉ name)
    (h : ∀ name ∈ names, sep ∉ name)
    (heq : [sep].intercalate names = [sep].intercalate front ++ sep :: rest) :
    names = front ++ rest.splitOn sep := by
  rw [← List.splitOn_intercalate sep h hnames, heq, splitOn_append_sep,
    List.splitOn_intercalate sep hfrontNames hfront]

theorem intercalate_prefix_iff {front names : List (List α)} (hfront : front ≠ [])
    (hnames : names ≠ []) (hfrontNames : ∀ name ∈ front, sep ∉ name)
    (h : ∀ name ∈ names, sep ∉ name) :
    ([sep].intercalate front = [sep].intercalate names ∨
        ∃ rest, [sep].intercalate names = [sep].intercalate front ++ sep :: rest) ↔
      front <+: names := by
  constructor
  · intro hcases
    rcases hcases with heq | ⟨rest, heq⟩
    · have hsame := intercalate_injective hfront hnames hfrontNames h heq
      exact hsame ▸ List.prefix_refl front
    · exact ⟨rest.splitOn sep, (names_of_append_sep hfront hnames hfrontNames h heq).symm⟩
  · intro ⟨back, hback⟩
    by_cases hempty : back = []
    · rw [hempty, List.append_nil] at hback
      exact .inl (congrArg _ hback)
    · exact .inr ⟨[sep].intercalate back, by rw [← hback, intercalate_append hfront hempty]⟩

end

end Zos.Lib
