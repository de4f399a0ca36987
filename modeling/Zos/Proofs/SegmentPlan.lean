import Zos.Downloader.Plan

/-!
# Segments

What the check `segments_cover_total` means: the segments lie end to end from
zero to the total, and each of them is filled from its start up to `next`. A
plan passes it, and so do the rows after any checkpoint.
-/

namespace Zos.Downloader

theorem coverFrom_cons {lo hi : Nat} {q : Segment} {rest : List Segment} :
    coverFrom lo (q :: rest) = some hi ↔ q.start = lo ∧ q.start ≤ q.next ∧
      q.next ≤ q.stop ∧ coverFrom q.stop rest = some hi := by
  rw [coverFrom]
  split
  · next h => simp only [reduceCtorEq, false_iff]; omega
  · next h => exact ⟨fun hrest => ⟨by omega, by omega, by omega, hrest⟩, fun h => h.2.2.2⟩

section Cover

variable {lo hi : Nat} {segments : List Segment}

theorem coverFrom_le (h : coverFrom lo segments = some hi) : lo ≤ hi := by
  induction segments generalizing lo with
  | nil => exact Nat.le_of_eq (Option.some.inj h)
  | cons q rest ih =>
      obtain ⟨rfl, h₁, h₂, hrest⟩ := coverFrom_cons.mp h
      exact Nat.le_trans (Nat.le_trans h₁ h₂) (ih hrest)

theorem coverFrom_mem (h : coverFrom lo segments = some hi) {q : Segment}
    (hq : q ∈ segments) :
    lo ≤ q.start ∧ q.start ≤ q.next ∧ q.next ≤ q.stop ∧ q.stop ≤ hi := by
  induction segments generalizing lo with
  | nil => cases hq
  | cons r rest ih =>
      obtain ⟨rfl, h₁, h₂, hrest⟩ := coverFrom_cons.mp h
      rcases List.mem_cons.mp hq with rfl | hmem
      · exact ⟨Nat.le_refl _, h₁, h₂, coverFrom_le hrest⟩
      · obtain ⟨hlo, hq⟩ := ih hrest hmem
        exact ⟨Nat.le_trans (Nat.le_trans h₁ h₂) hlo, hq⟩

/-- Every byte lies in a segment. -/
theorem coverFrom_exists (h : coverFrom lo segments = some hi) {i : Nat} (hlo : lo ≤ i)
    (hhi : i < hi) : ∃ q ∈ segments, q.start ≤ i ∧ i < q.stop := by
  induction segments generalizing lo with
  | nil =>
      rw [Option.some.inj h] at hlo
      omega
  | cons q rest ih =>
      obtain ⟨rfl, -, -, hrest⟩ := coverFrom_cons.mp h
      by_cases hi : i < q.stop
      · exact ⟨q, List.mem_cons_self, hlo, hi⟩
      · obtain ⟨r, hr, hin⟩ := ih hrest (Nat.le_of_not_lt hi)
        exact ⟨r, List.mem_cons_of_mem q hr, hin⟩

end Cover

/-! ## Plans -/

theorem planChunk_pos (total kept : Nat) : 0 < planChunk total kept := by
  have hmin : minSegmentBytes ≤
      max (divCeil (total - kept) (max (maxSegments - if 0 < kept then 1 else 0) 1))
        minSegmentBytes := Nat.le_max_right ..
  have hdiv : 0 < divCeil (max (divCeil (total - kept)
      (max (maxSegments - if 0 < kept then 1 else 0) 1)) minSegmentBytes)
        (1024 * 1024) := by
    refine Nat.div_pos ?_ (by decide)
    simp only [minSegmentBytes] at hmin ⊢
    omega
  simp only [planChunk]
  omega

/-- The loop cuts the rest of the file into empty segments. -/
theorem planFrom_cover {chunk total fuel start : Nat} (hchunk : 0 < chunk)
    (hstart : start ≤ total) (hfuel : total - start ≤ fuel) :
    coverFrom start (planFrom chunk total fuel start) = some total := by
  induction fuel generalizing start with
  | zero =>
      rw [planFrom, coverFrom]
      exact congrArg some (by omega)
  | succ fuel ih =>
      rw [planFrom]
      split
      · rw [coverFrom_cons]
        refine ⟨rfl, Nat.le_refl _, ?_, ih (Nat.min_le_right ..) ?_⟩ <;> dsimp only <;>
          omega
      · rw [coverFrom]
        exact congrArg some (by omega)

theorem planFrom_mem {chunk total fuel start : Nat} (hchunk : 0 < chunk) {q : Segment}
    (hq : q ∈ planFrom chunk total fuel start) : q.start < q.stop ∧ q.next = q.start := by
  induction fuel generalizing start with
  | zero => cases hq
  | succ fuel ih =>
      rw [planFrom] at hq
      split at hq
      · rcases List.mem_cons.mp hq with rfl | hq
        · refine ⟨?_, rfl⟩
          dsimp only
          omega
        · exact ih hq
      · cases hq

theorem planSegments_cover (total kept : Nat) :
    coverFrom 0 (planSegments total kept) = some total := by
  have hrest := planFrom_cover (planChunk_pos total (min kept total))
    (Nat.min_le_right kept total) (Nat.le_refl _)
  simp only [planSegments]
  split
  · rw [List.singleton_append, coverFrom_cons]
    exact ⟨rfl, Nat.zero_le _, Nat.le_refl _, hrest⟩
  · next hzero =>
      have : min kept total = 0 := by omega
      rw [List.nil_append]
      rwa [this] at hrest ⊢

/-- Of a plan nothing has arrived but what was kept. -/
theorem planSegments_mem {total kept : Nat} {q : Segment}
    (hq : q ∈ planSegments total kept) :
    q.start < q.stop ∧ (q.next = q.start ∨ q.start = 0 ∧ q.next = min kept total) := by
  rcases List.mem_append.mp hq with hq | hq
  · split at hq
    · next hpos =>
        obtain rfl := List.mem_singleton.mp hq
        exact ⟨hpos, .inr ⟨rfl, rfl⟩⟩
    · cases hq
  · obtain ⟨h, hnext⟩ := planFrom_mem (planChunk_pos ..) hq
    exact ⟨h, .inl hnext⟩

end Zos.Downloader
