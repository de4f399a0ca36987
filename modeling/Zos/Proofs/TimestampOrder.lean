import Zos.Time.Timestamp

/-!
# When timestamp texts are in time order

The part of a timestamp before the fraction has a fixed width up to the year
9999, and its fields follow the clock: two instants in different seconds are
always in order. Inside one second the fractions decide, and they are closed
by a `Z`, which is above the dot and every digit. The texts go wrong exactly
when the earlier instant prints fewer digits and the later one agrees with it
in the digits that are printed.
-/

namespace Zos.Time

open Zos.Lib

/-! ## The calendar -/

theorem daysInYear_pos (y : Nat) : 0 < daysInYear y := by
  unfold daysInYear
  split <;> omega

theorem daysInMonth_pos (y m : Nat) : 0 < daysInMonth y m := by
  unfold daysInMonth
  repeat' split
  all_goals omega

theorem daysInMonth_le (y m : Nat) : daysInMonth y m ≤ 31 := by
  unfold daysInMonth
  repeat' split
  all_goals omega

theorem sum_daysInMonth (y : Nat) :
    ∑ i ∈ Finset.range 12, daysInMonth y (1 + i) = daysInYear y := by
  simp only [Finset.sum_range_succ, Finset.sum_range_zero, daysInMonth,
    daysInYear]
  split <;> rfl

theorem yearAndDay_lt {d e : Nat} (h : d < e) :
    (yearAndDay d).1 < (yearAndDay e).1 ∨
      (yearAndDay d).1 = (yearAndDay e).1 ∧
        (yearAndDay d).2 < (yearAndDay e).2 := by
  unfold yearAndDay
  rw [locate_fuel daysInYear_pos (Nat.le_refl d) h.le]
  exact locate_lt_locate e 1970 h

theorem yearAndDay_snd_lt (d : Nat) :
    (yearAndDay d).2 < daysInYear (yearAndDay d).1 :=
  locate_snd_lt daysInYear_pos (Nat.le_refl d) 1970

theorem monthAndDay_lt {y d e : Nat} (h : d < e) :
    (monthAndDay y d).1 < (monthAndDay y e).1 ∨
      (monthAndDay y d).1 = (monthAndDay y e).1 ∧
        (monthAndDay y d).2 < (monthAndDay y e).2 := by
  unfold monthAndDay
  rw [locate_fuel (daysInMonth_pos y) (Nat.le_refl d) h.le]
  exact locate_lt_locate e 1 h

theorem monthAndDay_fst_le {y d : Nat} (h : d < daysInYear y) :
    (monthAndDay y d).1 ≤ 12 := by
  have hd : d < ∑ i ∈ Finset.range 12, daysInMonth y (1 + i) := by
    rwa [sum_daysInMonth]
  exact Nat.le_of_lt_succ (locate_fst_lt d 1 hd)

theorem monthAndDay_snd_lt (y d : Nat) : (monthAndDay y d).2 < 31 :=
  Nat.lt_of_lt_of_le
    (locate_snd_lt (daysInMonth_pos y) (Nat.le_refl d) 1) (daysInMonth_le y _)

/-! ## The fixed-width part -/

theorem dateText_lt {d e : Nat} (h : d < e) (he : (yearAndDay e).1 ≤ 9999) :
    dateText d < dateText e := by
  simp only [dateText]
  refine decimal_append_lt (by omega) ?_
  rcases yearAndDay_lt h with hy | ⟨hy, hd⟩
  · exact .inl hy
  refine .inr ⟨hy, List.cons_lt_cons_iff.mpr (.inr ⟨rfl, ?_⟩)⟩
  have hm := monthAndDay_fst_le (yearAndDay_snd_lt e)
  have hdom := monthAndDay_snd_lt (yearAndDay e).1 (yearAndDay e).2
  rw [hy]
  refine decimal_append_lt (by omega) ?_
  rcases monthAndDay_lt (y := (yearAndDay e).1) hd with hm' | ⟨hm', hd'⟩
  · exact .inl hm'
  refine .inr ⟨hm', List.cons_lt_cons_iff.mpr (.inr ⟨rfl, ?_⟩)⟩
  exact decimal_append_lt (by omega) (.inl (by omega))

theorem clockText_lt {s t : Nat} (h : s < t) (ht : t < secondsPerDay) :
    clockText s < clockText t := by
  unfold secondsPerDay at ht
  unfold clockText
  refine decimal_append_lt (by omega) ?_
  by_cases hh : s / 3600 < t / 3600
  · exact .inl hh
  refine .inr ⟨by omega, List.cons_lt_cons_iff.mpr (.inr ⟨rfl, ?_⟩)⟩
  refine decimal_append_lt (by omega) ?_
  by_cases hm : s % 3600 / 60 < t % 3600 / 60
  · exact .inl hm
  refine .inr ⟨by omega, List.cons_lt_cons_iff.mpr (.inr ⟨rfl, ?_⟩)⟩
  exact decimal_lt_decimal (by omega) (by omega)

theorem length_dateText (d : Nat) : (dateText d).length = 11 := by
  simp [dateText]

theorem length_dateTimeText (s : Nat) : (dateTimeText s).length = 19 := by
  simp [dateTimeText, length_dateText, clockText]

theorem dateTimeText_lt {s t : Nat} (h : s < t)
    (ht : (yearAndDay (t / secondsPerDay)).1 ≤ 9999) :
    dateTimeText s < dateTimeText t := by
  unfold dateTimeText
  by_cases hd : s / secondsPerDay < t / secondsPerDay
  · exact append_lt_append_of_lt _ _ (by simp [length_dateText])
      (dateText_lt hd ht)
  · have hday : s / secondsPerDay = t / secondsPerDay :=
      Nat.le_antisymm (Nat.div_le_div_right h.le) (Nat.le_of_not_lt hd)
    rw [hday]
    refine List.append_left_lt (clockText_lt ?_ (Nat.mod_lt _ (by decide)))
    have hs := Nat.div_add_mod s secondsPerDay
    have ht' := Nat.div_add_mod t secondsPerDay
    rw [hday] at hs
    omega

theorem dateTimeText_inj {s t : Nat}
    (hs : (yearAndDay (s / secondsPerDay)).1 ≤ 9999)
    (ht : (yearAndDay (t / secondsPerDay)).1 ≤ 9999)
    (h : dateTimeText s = dateTimeText t) : s = t := by
  rcases Nat.lt_trichotomy s t with hlt | heq | hgt
  · exact absurd h (dateTimeText_lt hlt ht).ne
  · exact heq
  · exact absurd h (dateTimeText_lt hgt hs).ne'

/-! ## The fraction

What is printed is cut off from the nine digits of the nanoseconds, and the
digits that are left out of a Rust timestamp are zeros. -/

theorem significantDigits_le (k n : Nat) : significantDigits k n ≤ k := by
  induction k generalizing n with
  | zero => exact Nat.le_refl 0
  | succ k ih =>
      rw [significantDigits]
      split
      · exact (ih (n / 10)).trans (Nat.le_succ k)
      · exact Nat.le_refl _

theorem pow_dvd_of_significantDigits {k n : Nat} (hn : n < 10 ^ k) :
    10 ^ (k - significantDigits k n) ∣ n := by
  induction k generalizing n with
  | zero =>
      rw [pow_zero] at hn
      exact ⟨n, by simp⟩
  | succ k ih =>
      rw [significantDigits]
      split
      · next h0 =>
          have hle := significantDigits_le k (n / 10)
          obtain ⟨m, hm⟩ := ih (n := n / 10) (by rw [pow_succ] at hn; omega)
          refine ⟨m, ?_⟩
          rw [Nat.succ_sub hle, pow_succ', Nat.mul_assoc, ← hm]
          omega
      · rw [Nat.sub_self, pow_zero]
        exact Nat.one_dvd n

theorem fractionDigits_le (w : Writer) (t : Nat) :
    fractionDigits w t ≤ 9 := by
  cases w with
  | rust => exact significantDigits_le 9 _
  | javascript => exact Nat.le_of_ble_eq_true rfl

/-- Cutting nanoseconds and cutting instants is the same, second by second. -/
theorem div_pow_eq {k : Nat} (hk : k ≤ 9) (t : Nat) :
    t / 10 ^ (9 - k) =
      t / nanosPerSecond * 10 ^ k + t % nanosPerSecond / 10 ^ (9 - k) := by
  have hsplit : nanosPerSecond = 10 ^ (9 - k) * 10 ^ k := by
    rw [← pow_add, Nat.sub_add_cancel hk]
    rfl
  conv_lhs => rw [← Nat.div_add_mod t nanosPerSecond]
  rw [hsplit, Nat.mul_assoc, Nat.mul_add_div (by positivity), Nat.mul_comm]

theorem div_pow_eq_iff {k : Nat} (hk : k ≤ 9) (t u : Nat) :
    t / 10 ^ (9 - k) = u / 10 ^ (9 - k) ↔
      t / nanosPerSecond = u / nanosPerSecond ∧
        t % nanosPerSecond / 10 ^ (9 - k) =
          u % nanosPerSecond / 10 ^ (9 - k) := by
  have hlt : ∀ v : Nat, v % nanosPerSecond / 10 ^ (9 - k) < 10 ^ k := by
    intro v
    refine Nat.div_lt_of_lt_mul ?_
    rw [← pow_add, Nat.sub_add_cancel hk]
    exact Nat.mod_lt v (by decide)
  constructor
  · intro h
    rw [div_pow_eq hk t, div_pow_eq hk u] at h
    have hsec : t / nanosPerSecond = u / nanosPerSecond := by
      have h' := congrArg (· / 10 ^ k) h
      simpa [Nat.mul_comm _ (10 ^ k), Nat.mul_add_div, Nat.div_eq_of_lt, hlt]
        using h'
    rw [hsec] at h
    exact ⟨hsec, Nat.add_left_cancel h⟩
  · rintro ⟨hsec, hfrac⟩
    rw [div_pow_eq hk t, div_pow_eq hk u, hsec, hfrac]

theorem truncate_eq (w : Writer) (t : Nat) :
    truncate w t =
      t / 10 ^ (9 - fractionDigits w t) * 10 ^ (9 - fractionDigits w t) := by
  cases w with
  | javascript => rfl
  | rust =>
      refine (Nat.div_mul_cancel ?_).symm
      have hmod : 10 ^ (9 - fractionDigits .rust t) ∣ t % nanosPerSecond :=
        pow_dvd_of_significantDigits (Nat.mod_lt t (by decide))
      have hsec : 10 ^ (9 - fractionDigits .rust t) ∣ nanosPerSecond :=
        pow_dvd_pow 10 (Nat.sub_le 9 _)
      exact (Nat.dvd_mod_iff hsec).mp hmod

theorem truncate_le (w : Writer) (t : Nat) : truncate w t ≤ t := by
  rw [truncate_eq]
  exact Nat.div_mul_le_self t _

theorem fractionText_isPrefix (w : Writer) (t : Nat) :
    fractionText w t <+: '.' :: decimal 9 (t % nanosPerSecond) := by
  unfold fractionText
  split
  · exact List.nil_prefix
  · exact List.cons_prefix_cons.mpr
      ⟨rfl, decimalCut_isPrefix (fractionDigits_le w t) _⟩

theorem lt_Z_of_mem {n : Nat} {c : Char} (h : c ∈ '.' :: decimal 9 n) :
    c < 'Z' := by
  rcases List.mem_cons.mp h with rfl | h
  · decide
  · exact lt_of_le_of_lt (mem_decimal h).2 (by decide)

/-- One fraction is a proper prefix of the other when it has fewer digits
and the nanoseconds agree in them. -/
theorem fractionText_proper_iff (w v : Writer) (t u : Nat) :
    fractionText w t <+: fractionText v u ∧ fractionText w t ≠ fractionText v u ↔
      fractionDigits w t < fractionDigits v u ∧
        t % nanosPerSecond / 10 ^ (9 - fractionDigits w t) =
          u % nanosPerSecond / 10 ^ (9 - fractionDigits w t) := by
  have hmod : ∀ x : Nat, x % nanosPerSecond < 10 ^ 9 := fun x =>
    Nat.mod_lt x (by decide)
  unfold fractionText
  split
  · next h0 =>
      rw [h0, Nat.div_eq_of_lt (hmod t), Nat.div_eq_of_lt (hmod u)]
      split
      · next h0' => simp [h0']
      · next h0' => simp [Nat.pos_of_ne_zero h0']
  · next h0 =>
      split
      · next h0' => simp [h0']
      · rw [List.cons_prefix_cons, decimalCut_isPrefix_iff
          (fractionDigits_le w t) (fractionDigits_le v u) (hmod t) (hmod u)]
        constructor
        · rintro ⟨⟨-, hle, hdigits⟩, hne⟩
          refine ⟨Nat.lt_of_le_of_ne hle ?_, hdigits⟩
          intro heq
          apply hne
          rw [decimalCut, decimalCut, ← heq, hdigits]
        · rintro ⟨hlt, hdigits⟩
          refine ⟨⟨rfl, hlt.le, hdigits⟩, ?_⟩
          intro heq
          have hlen := congrArg List.length heq
          simp only [List.length_cons, decimalCut, length_decimal] at hlen
          omega

/-! ## The order of the texts -/

/-- The earlier instant prints fewer digits, and the later one agrees with it
in all of them. -/
def Misordered (w₁ : Writer) (t₁ : Nat) (w₂ : Writer) (t₂ : Nat) :
    Prop :=
  fractionDigits w₁ t₁ < fractionDigits w₂ t₂ ∧
    t₁ / 10 ^ (9 - fractionDigits w₁ t₁) = t₂ / 10 ^ (9 - fractionDigits w₁ t₁)

instance (w₁ : Writer) (t₁ : Nat) (w₂ : Writer) (t₂ : Nat) :
    Decidable (Misordered w₁ t₁ w₂ t₂) :=
  inferInstanceAs (Decidable (_ ∧ _))

theorem iso_truncate (w : Writer) (t : Nat) :
    iso w (truncate w t) = iso w t := by
  cases w with
  | rust => rfl
  | javascript =>
      have hsec : t / 1000000 * 1000000 / nanosPerSecond =
          t / nanosPerSecond := by unfold nanosPerSecond; omega
      have hms : t / 1000000 * 1000000 % nanosPerSecond / 10 ^ (9 - 3) =
          t % nanosPerSecond / 10 ^ (9 - 3) := by unfold nanosPerSecond; omega
      show dateTimeText (t / 1000000 * 1000000 / nanosPerSecond) ++ ('.' ::
        decimal 3 (t / 1000000 * 1000000 % nanosPerSecond / 10 ^ (9 - 3)) ++
          ['Z']) = _
      rw [hsec, hms]
      rfl

theorem iso_le_iso_iff_of_le {w₁ w₂ : Writer} {t₁ t₂ : Nat}
    (h : t₁ ≤ t₂) (hy : year t₂ ≤ 9999) :
    iso w₁ t₁ ≤ iso w₂ t₂ ↔ ¬ Misordered w₁ t₁ w₂ t₂ := by
  unfold Misordered
  rw [div_pow_eq_iff (fractionDigits_le w₁ t₁)]
  rcases Nat.lt_or_eq_of_le (Nat.div_le_div_right (c := nanosPerSecond) h) with
    hlt | heq
  · have hle : iso w₁ t₁ ≤ iso w₂ t₂ :=
      (append_lt_append_of_lt _ _ (by simp [length_dateTimeText])
        (dateTimeText_lt hlt hy)).le
    simp [hle, hlt.ne]
  · have hnanos : t₁ % nanosPerSecond ≤ t₂ % nanosPerSecond := by
      have h₁ := Nat.div_add_mod t₁ nanosPerSecond
      have h₂ := Nat.div_add_mod t₂ nanosPerSecond
      rw [heq] at h₁
      omega
    unfold iso
    rw [heq, append_le_append_left_iff, closed_le_closed_iff
      (cons_le_cons_iff.mpr (.inr ⟨rfl, decimal_le_decimal hnanos
        (Nat.mod_lt _ (by decide))⟩))
      (fractionText_isPrefix w₁ t₁) (fractionText_isPrefix w₂ t₂)
      (fun c => lt_Z_of_mem) (fun c => lt_Z_of_mem), fractionText_proper_iff]
    simp

theorem misordered_truncate_left {w₁ w₂ : Writer} {t₁ t₂ : Nat} :
    Misordered w₁ (truncate w₁ t₁) w₂ t₂ ↔ Misordered w₁ t₁ w₂ t₂ := by
  cases w₁ with
  | rust => exact Iff.rfl
  | javascript =>
      show _ ∧ t₁ / 1000000 * 1000000 / 1000000 = _ ↔ _
      rw [Nat.mul_div_cancel _ (by omega)]
      exact Iff.rfl

theorem fractionText_inj {w v : Writer} {t u : Nat}
    (h : fractionText w t = fractionText v u) :
    fractionDigits w t = fractionDigits v u ∧
      t % nanosPerSecond / 10 ^ (9 - fractionDigits w t) =
        u % nanosPerSecond / 10 ^ (9 - fractionDigits w t) := by
  have hmod : ∀ x : Nat, x % nanosPerSecond < 10 ^ 9 := fun x =>
    Nat.mod_lt x (by decide)
  unfold fractionText at h
  split at h
  · next h0 =>
      split at h
      · next h0' =>
          rw [h0, h0', Nat.div_eq_of_lt (hmod t), Nat.div_eq_of_lt (hmod u)]
          exact ⟨rfl, rfl⟩
      · cases h
  · split at h
    · cases h
    · have hcut := (List.cons.inj h).2
      have hlen := congrArg List.length hcut
      simp only [decimalCut, length_decimal] at hlen
      exact ⟨hlen, ((decimalCut_isPrefix_iff (fractionDigits_le w t)
        (fractionDigits_le v u) (hmod t) (hmod u)).mp
          (hcut ▸ List.prefix_refl _)).2⟩

/-- Equal texts stand for the same stored instant. -/
theorem truncate_eq_of_iso_eq {w₁ w₂ : Writer} {t₁ t₂ : Nat}
    (hy₁ : year t₁ ≤ 9999) (hy₂ : year t₂ ≤ 9999)
    (h : iso w₁ t₁ = iso w₂ t₂) : truncate w₁ t₁ = truncate w₂ t₂ := by
  obtain ⟨hhead, htail⟩ :=
    List.append_inj h (by simp [length_dateTimeText])
  obtain ⟨hdigits, hfrac⟩ := fractionText_inj (List.append_cancel_right htail)
  have hsec := dateTimeText_inj hy₁ hy₂ hhead
  rw [truncate_eq, truncate_eq, ← hdigits,
    (div_pow_eq_iff (fractionDigits_le w₁ t₁) t₁ t₂).mpr ⟨hsec, hfrac⟩]

/-- The texts of two instants are in order exactly when the pair is not
misordered, and so a lease is judged rightly exactly when the earlier of its
end and the clock is not misordered with the later. -/
theorem iso_order_iff (w₁ w₂ : Writer) (t₁ t₂ : Nat)
    (hy₁ : year t₁ ≤ 9999) (hy₂ : year t₂ ≤ 9999) :
    (truncate w₁ t₁ ≤ t₂ →
      (iso w₁ t₁ ≤ iso w₂ t₂ ↔ ¬ Misordered w₁ t₁ w₂ t₂)) ∧
    ((leaseExpired (iso w₁ t₁) (iso w₂ t₂) = true ↔ truncate w₁ t₁ ≤ t₂) ↔
      if truncate w₁ t₁ ≤ t₂ then ¬ Misordered w₁ t₁ w₂ t₂
      else ¬ Misordered w₂ t₂ w₁ t₁) := by
  have hle : truncate w₁ t₁ ≤ t₂ →
      (iso w₁ t₁ ≤ iso w₂ t₂ ↔ ¬ Misordered w₁ t₁ w₂ t₂) := by
    intro h
    rw [← iso_truncate w₁ t₁, ← misordered_truncate_left]
    exact iso_le_iso_iff_of_le h hy₂
  refine ⟨hle, ?_⟩
  rw [leaseExpired, decide_eq_true_iff]
  split
  · next h => simp only [h, iff_true, hle h]
  · next h =>
      -- Equal texts are no way out here: the stored instants differ.
      have hne : iso w₁ t₁ ≠ iso w₂ t₂ := by
        intro heq
        have htrunc := truncate_eq_of_iso_eq hy₁ hy₂ heq
        have hle₂ := truncate_le w₂ t₂
        omega
      have hlt : t₂ ≤ t₁ := by
        have hle₁ := truncate_le w₁ t₁
        omega
      rw [← iso_le_iso_iff_of_le hlt hy₁]
      simp only [h, iff_false, not_le]
      exact ⟨le_of_lt, fun hle => lt_of_le_of_ne hle hne.symm⟩

theorem iso_order_quarter_half :
    truncate .rust 250000000 ≤ 500000000 ∧
      iso .rust 250000000 ≤ iso .javascript 500000000 :=
  ⟨by decide, ((iso_order_iff .rust .javascript 250000000 500000000
    (by decide +kernel) (by decide +kernel)).1 (by decide)).mpr
      (by decide +kernel)⟩

/-- A lease that ends on a whole second is still held half a second later. -/
theorem leaseExpired_whole_second :
    year 1700000000500000000 ≤ 9999 ∧
      truncate .rust 1700000000000000000 ≤ 1700000000500000000 ∧
      ¬ iso .rust 1700000000000000000 ≤ iso .rust 1700000000500000000 ∧
      leaseExpired (futureIso 1699999940000000000 60000000000)
        (nowIso 1700000000500000000) = false := by
  decide +kernel

end Zos.Time
