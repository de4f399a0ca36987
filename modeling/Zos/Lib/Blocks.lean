import Mathlib.Algebra.BigOperators.Group.Finset.Basic

/-!
# Positions in consecutive blocks

Consecutive blocks `k`, `k + 1`, … of lengths `len k`, `len (k + 1)`, … cover
the natural numbers. `locate` finds the block a position falls in and the
offset inside it, by walking from the first block on, and the pairs it
answers are in lexicographic order as the positions are.
-/

namespace Zos.Lib

/-- The block that holds position `n`, counted from the start of block `k`,
and the offset of `n` inside it. -/
def locate (len : Nat → Nat) : Nat → Nat → Nat → Nat × Nat
  | 0, k, n => (k, n)
  | fuel + 1, k, n =>
      if n < len k then (k, n) else locate len fuel (k + 1) (n - len k)

section

variable {len : Nat → Nat}

theorem le_locate_fst (fuel k n : Nat) : k ≤ (locate len fuel k n).1 := by
  induction fuel generalizing k n with
  | zero => exact Nat.le_refl k
  | succ fuel ih =>
      rw [locate]
      split
      · exact Nat.le_refl k
      · exact Nat.le_of_succ_le (ih (k + 1) (n - len k))

/-- Positions and the pairs that locate them are in the same order, however
short the walk is cut. -/
theorem locate_lt_locate (fuel k : Nat) {n m : Nat} (hnm : n < m) :
    (locate len fuel k n).1 < (locate len fuel k m).1 ∨
      (locate len fuel k n).1 = (locate len fuel k m).1 ∧
        (locate len fuel k n).2 < (locate len fuel k m).2 := by
  induction fuel generalizing k n m with
  | zero => exact .inr ⟨rfl, hnm⟩
  | succ fuel ih =>
      rw [locate, locate]
      split
      · next hn =>
          split
          · exact .inr ⟨rfl, hnm⟩
          · exact .inl (le_locate_fst fuel (k + 1) (m - len k))
      · next hn =>
          rw [if_neg (by omega)]
          exact ih (k + 1) (by omega)

/-- With no empty block, a walk longer than the position is long enough. -/
theorem locate_fuel (hlen : ∀ k, 0 < len k) {fuel fuel' n : Nat}
    (hn : n ≤ fuel) (hn' : n ≤ fuel') (k : Nat) :
    locate len fuel k n = locate len fuel' k n := by
  induction fuel generalizing fuel' k n with
  | zero =>
      cases fuel' with
      | zero => rfl
      | succ fuel' =>
          have hk := hlen k
          rw [locate, locate, if_pos (by omega)]
  | succ fuel ih =>
      have hk := hlen k
      cases fuel' with
      | zero => rw [locate, locate, if_pos (by omega)]
      | succ fuel' =>
          rw [locate, locate]
          split
          · rfl
          · exact ih (by omega) (by omega) (k + 1)

/-- With no empty block, a walk of `n` steps gets to the block of `n`. -/
theorem locate_snd_lt (hlen : ∀ k, 0 < len k) {fuel n : Nat} (hn : n ≤ fuel)
    (k : Nat) : (locate len fuel k n).2 < len (locate len fuel k n).1 := by
  induction fuel generalizing k n with
  | zero =>
      have hk := hlen k
      rw [locate]
      show n < len k
      omega
  | succ fuel ih =>
      have hk := hlen k
      rw [locate]
      split
      · assumption
      · exact ih (by omega) (k + 1)

/-- A position inside the first `j` blocks is located in one of them. -/
theorem locate_fst_lt (fuel k : Nat) {j n : Nat}
    (hn : n < ∑ i ∈ Finset.range j, len (k + i)) :
    (locate len fuel k n).1 < k + j := by
  induction fuel generalizing k j n with
  | zero =>
      cases j with
      | zero => simp at hn
      | succ j => exact Nat.lt_add_of_pos_right (Nat.succ_pos j)
  | succ fuel ih =>
      cases j with
      | zero => simp at hn
      | succ j =>
          rw [locate]
          split
          · exact Nat.lt_add_of_pos_right (Nat.succ_pos j)
          · rw [Finset.sum_range_succ', Nat.add_zero] at hn
            have hshift : ∑ i ∈ Finset.range j, len (k + (i + 1)) =
                ∑ i ∈ Finset.range j, len (k + 1 + i) :=
              Finset.sum_congr rfl fun i _ => by
                rw [Nat.add_right_comm, Nat.add_assoc]
            have h := ih (k + 1) (j := j) (n := n - len k) (by omega)
            omega

end

end Zos.Lib
