import Mathlib.Data.Char
import Mathlib.Data.List.Lex
import Mathlib.Tactic.IntervalCases

/-!
# Texts in byte order

What is needed to compare formatted texts: lexicographic order over a common
prefix, decimal fields of a fixed width, and fields of varying width that end
in a terminator.

The last of these is where the order of the texts and the order of the values
part. Two digit strings that are cut off at different lengths and closed by a
terminator greater than every digit compare as their values do, except when
the text of the smaller value is a proper prefix of the other: then the
terminator is compared with a digit, and it wins.
-/

namespace Zos.Lib

section Lexicographic

variable {α : Type} [LinearOrder α]

theorem append_lt_append_of_lt {a b : List α} (x y : List α)
    (hlen : a.length = b.length) (h : a < b) : a ++ x < b ++ y := by
  induction a generalizing b with
  | nil =>
      cases b with
      | nil => exact absurd h (List.not_lt_nil _)
      | cons c b => cases hlen
  | cons c a ih =>
      cases b with
      | nil => cases hlen
      | cons d b =>
          rw [List.cons_append, List.cons_append, List.cons_lt_cons_iff]
          rcases List.cons_lt_cons_iff.mp h with hcd | ⟨rfl, hab⟩
          · exact .inl hcd
          · exact .inr ⟨rfl, ih (by simpa using hlen) hab⟩

theorem cons_le_cons_iff {a b : α} {l m : List α} :
    a :: l ≤ b :: m ↔ a < b ∨ a = b ∧ l ≤ m := by
  rw [← not_lt, List.cons_lt_cons_iff, ← not_lt (a := m)]
  constructor
  · intro h
    rcases lt_trichotomy a b with hab | hab | hab
    · exact .inl hab
    · exact .inr ⟨hab, fun hml => h (.inr ⟨hab.symm, hml⟩)⟩
    · exact absurd (.inl hab) h
  · rintro (hab | ⟨rfl, hml⟩) (hba | ⟨hba, hlt⟩)
    · exact absurd hab hba.not_gt
    · exact absurd hba hab.ne'
    · exact absurd hba (lt_irrefl a)
    · exact hml hlt

theorem append_le_append_left_iff (a : List α) {x y : List α} :
    a ++ x ≤ a ++ y ↔ x ≤ y := by
  induction a with
  | nil => rfl
  | cons c a ih =>
      rw [List.cons_append, List.cons_append, cons_le_cons_iff]
      constructor
      · rintro (h | ⟨_, h⟩)
        · exact absurd h (lt_irrefl c)
        · exact ih.mp h
      · exact fun h => .inr ⟨rfl, ih.mpr h⟩

/-- Two strings cut off from padded ones in order, each closed by a terminator
`z` above every symbol. The cut strings are in order unless the smaller one is
a proper prefix of the larger. -/
theorem closed_le_closed_iff {z : α} {p q d e : List α} (hpq : p ≤ q)
    (hd : d <+: p) (he : e <+: q) (hp : ∀ c ∈ p, c < z) (hq : ∀ c ∈ q, c < z) :
    d ++ [z] ≤ e ++ [z] ↔ ¬ (d <+: e ∧ d ≠ e) := by
  induction d generalizing p q e with
  | nil =>
      cases e with
      | nil => simp
      | cons b e =>
          -- The terminator against the first symbol of the longer string.
          have hb : b < z := hq b (he.subset List.mem_cons_self)
          simp [cons_le_cons_iff, hb.not_gt, hb.ne']
  | cons a d ih =>
      obtain ⟨p, rfl⟩ : ∃ p', p = a :: p' := by
        obtain ⟨s, rfl⟩ := hd
        exact ⟨d ++ s, rfl⟩
      have ha : a < z := hp a List.mem_cons_self
      cases e with
      | nil => simp [cons_le_cons_iff, ha]
      | cons b e =>
          obtain ⟨q, rfl⟩ : ∃ q', q = b :: q' := by
            obtain ⟨s, rfl⟩ := he
            exact ⟨e ++ s, rfl⟩
          rw [List.cons_append, List.cons_append, cons_le_cons_iff]
          rcases cons_le_cons_iff.mp hpq with hab | ⟨rfl, hpq'⟩
          · have hne : a ≠ b := hab.ne
            simp [hab, hne]
          · have hih := ih hpq' (List.cons_prefix_cons.mp hd).2
              (List.cons_prefix_cons.mp he).2
              (fun c hc => hp c (List.mem_cons_of_mem _ hc))
              (fun c hc => hq c (List.mem_cons_of_mem _ hc))
            simp only [lt_self_iff_false, true_and, false_or, hih,
              List.cons_prefix_cons, ne_eq, List.cons.injEq]

end Lexicographic

/-! ## Decimal fields of a fixed width -/

/-- The last `w` decimal digits of `n`, most significant first: the field
`n` is printed in when it is padded with zeros to `w` places. -/
def decimal : Nat → Nat → List Char
  | 0, _ => []
  | w + 1, n => decimal w (n / 10) ++ [Nat.digitChar (n % 10)]

theorem digitChar_lt_digitChar {a b : Nat} (hab : a < b) (hb : b < 10) :
    Nat.digitChar a < Nat.digitChar b := by
  revert a
  interval_cases b <;> intro a hab <;> interval_cases a <;> decide

theorem digitChar_le_nine {a : Nat} (ha : a < 10) : Nat.digitChar a ≤ '9' := by
  interval_cases a <;> decide

theorem zero_le_digitChar {a : Nat} (ha : a < 10) : '0' ≤ Nat.digitChar a := by
  interval_cases a <;> decide

@[simp] theorem length_decimal (w n : Nat) : (decimal w n).length = w := by
  induction w generalizing n with
  | zero => rfl
  | succ w ih => simp [decimal, ih]

theorem mem_decimal {w n : Nat} {c : Char} (h : c ∈ decimal w n) :
    '0' ≤ c ∧ c ≤ '9' := by
  induction w generalizing n with
  | zero => cases h
  | succ w ih =>
      rw [decimal, List.mem_append, List.mem_singleton] at h
      rcases h with h | rfl
      · exact ih h
      · exact ⟨zero_le_digitChar (Nat.mod_lt _ (by omega)),
          digitChar_le_nine (Nat.mod_lt _ (by omega))⟩

/-- In a field wide enough for both, numbers and their digits are in the same
order. -/
theorem decimal_lt_decimal {w n m : Nat} (hnm : n < m) (hm : m < 10 ^ w) :
    decimal w n < decimal w m := by
  induction w generalizing n m with
  | zero => rw [pow_zero] at hm; omega
  | succ w ih =>
      rw [decimal, decimal]
      rcases Nat.lt_or_ge (n / 10) (m / 10) with hlt | hge
      · exact append_lt_append_of_lt _ _ (by simp)
          (ih hlt (by rw [pow_succ] at hm; omega))
      · have hdiv : n / 10 = m / 10 := by omega
        rw [hdiv]
        refine List.append_left_lt (List.cons_lt_cons_iff.mpr (.inl ?_))
        exact digitChar_lt_digitChar (by omega) (Nat.mod_lt _ (by omega))

/-- A field followed by more text: the field decides, and the rest decides
when the fields are equal. -/
theorem decimal_append_lt {w n m : Nat} {x y : List Char} (hm : m < 10 ^ w)
    (h : n < m ∨ n = m ∧ x < y) : decimal w n ++ x < decimal w m ++ y := by
  rcases h with hnm | ⟨rfl, hxy⟩
  · exact append_lt_append_of_lt _ _ (by simp) (decimal_lt_decimal hnm hm)
  · exact List.append_left_lt hxy

theorem decimal_le_decimal {w n m : Nat} (hnm : n ≤ m) (hm : m < 10 ^ w) :
    decimal w n ≤ decimal w m := by
  rcases Nat.lt_or_eq_of_le hnm with hlt | rfl
  · exact (decimal_lt_decimal hlt hm).le
  · exact le_refl _

/-- Dropping the last `k` places of a field divides by `10 ^ k`. -/
theorem decimal_div_isPrefix (w k n : Nat) :
    decimal w (n / 10 ^ k) <+: decimal (w + k) n := by
  induction k generalizing n with
  | zero => simp
  | succ k ih =>
      rw [← Nat.add_assoc, decimal, pow_succ', ← Nat.div_div_eq_div_mul]
      exact (ih (n / 10)).trans (List.prefix_append _ _)

theorem decimal_inj {w n m : Nat} (hn : n < 10 ^ w) (hm : m < 10 ^ w)
    (h : decimal w n = decimal w m) : n = m := by
  rcases Nat.lt_trichotomy n m with hlt | heq | hgt
  · exact absurd h (decimal_lt_decimal hlt hm).ne
  · exact heq
  · exact absurd h (decimal_lt_decimal hgt hn).ne'

/-- The first `k` places of the field of width `w` that holds `n`. -/
def decimalCut (w k n : Nat) : List Char :=
  decimal k (n / 10 ^ (w - k))

theorem decimalCut_isPrefix {w k : Nat} (hk : k ≤ w) (n : Nat) :
    decimalCut w k n <+: decimal w n := by
  have h := decimal_div_isPrefix k (w - k) n
  rwa [Nat.add_sub_cancel' hk] at h

/-- One cut field is a prefix of another when it is no longer and the two
numbers agree in its places. -/
theorem decimalCut_isPrefix_iff {w j k n m : Nat} (hj : j ≤ w) (hk : k ≤ w)
    (hn : n < 10 ^ w) (hm : m < 10 ^ w) :
    decimalCut w j n <+: decimalCut w k m ↔
      j ≤ k ∧ n / 10 ^ (w - j) = m / 10 ^ (w - j) := by
  have hlt : ∀ {i}, i < 10 ^ w → i / 10 ^ (w - j) < 10 ^ j := fun hi =>
    Nat.div_lt_of_lt_mul (by rwa [← pow_add, Nat.sub_add_cancel hj])
  constructor
  · intro h
    have hjk : j ≤ k := by simpa [decimalCut] using h.length_le
    have hpre := List.prefix_of_prefix_length_le
      (h.trans (decimalCut_isPrefix hk m)) (decimalCut_isPrefix hj m)
      (by simp [decimalCut])
    exact ⟨hjk, decimal_inj (hlt hn) (hlt hm)
      (hpre.eq_of_length (by simp [decimalCut]))⟩
  · rintro ⟨hjk, heq⟩
    have h := decimal_div_isPrefix j (k - j) (m / 10 ^ (w - k))
    rw [Nat.div_div_eq_div_mul, ← pow_add, Nat.add_sub_cancel' hjk] at h
    rw [decimalCut, heq]
    rwa [show w - k + (k - j) = w - j by omega] at h

end Zos.Lib
