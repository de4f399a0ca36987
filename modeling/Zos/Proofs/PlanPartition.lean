import Zos.Proofs.SegmentPlan

/-!
# Plans are partitions

A plan computed in words of 64 bits is the plan computed in numbers: up to `2 ^ 63` neither the
length of a segment nor the end of one comes near the largest word. A segment is as long as an
even share of the rest, so there are no more rounds of the loop than slots; what is kept at the
beginning has a slot of its own.
-/

namespace Zos.Downloader

theorem divCeil_mul (a : Nat) {b : Nat} (hb : 0 < b) : a ≤ divCeil a b * b := by
  have hdiv := Nat.div_add_mod (a + b - 1) b
  have hmod := Nat.mod_lt (a + b - 1) hb
  rw [divCeil, Nat.mul_comm]
  omega

theorem divCeil_mul_lt (a : Nat) {b : Nat} (hb : 0 < b) : divCeil a b * b < a + b := by
  have hdiv := Nat.div_add_mod (a + b - 1) b
  rw [divCeil, Nat.mul_comm]
  omega

theorem divCeil_le (a : Nat) {b : Nat} (hb : 0 < b) : divCeil a b ≤ a := by
  rw [divCeil]
  refine Nat.lt_succ_iff.mp ((Nat.div_lt_iff_lt_mul hb).mpr ?_)
  have := Nat.le_mul_of_pos_right a hb
  rw [Nat.succ_mul]
  omega

/-- The first of the two products is the smaller one. -/
theorem checkedMul_checkedMul {a : Nat} (h : a * 1024 * 1024 < 2 ^ 64) :
    ((checkedMul a 1024).bind fun b => checkedMul b 1024) = some (a * 1024 * 1024) := by
  have hfirst : a * 1024 < 2 ^ 64 :=
    Nat.lt_of_le_of_lt (Nat.le_mul_of_pos_right _ (by decide)) h
  rw [checkedMul, if_pos hfirst, Option.bind_some, checkedMul, if_pos h]

section Chunk

variable {total kept : Nat}

/-- The slots for the rest of the file. -/
def planSlots (kept : Nat) : Nat := max (maxSegments - if 0 < kept then 1 else 0) 1

theorem planSlots_pos (kept : Nat) : 0 < planSlots kept := by
  rw [planSlots]
  omega

/-- A segment in whole MiB: what a segment needs, rounded up. -/
theorem planChunk_eq (total kept : Nat) : planChunk total kept =
    divCeil (max (divCeil (total - kept) (planSlots kept)) minSegmentBytes) (1024 * 1024) *
      (1024 * 1024) := by
  rw [← Nat.mul_assoc]
  rfl

theorem planSlots_mul_planChunk (total kept : Nat) :
    total - kept ≤ planSlots kept * planChunk total kept := by
  have hround : divCeil (total - kept) (planSlots kept) ≤ planChunk total kept := by
    rw [planChunk_eq]
    exact Nat.le_trans (Nat.le_max_left _ minSegmentBytes) (divCeil_mul _ (by decide))
  calc total - kept
      ≤ divCeil (total - kept) (planSlots kept) * planSlots kept :=
        divCeil_mul _ (planSlots_pos kept)
    _ ≤ planChunk total kept * planSlots kept := Nat.mul_le_mul_right _ hround
    _ = planSlots kept * planChunk total kept := Nat.mul_comm ..

theorem planChunk_lt (htotal : total < 2 ^ 63) : planChunk total kept < 2 ^ 64 := by
  have hshare := divCeil_le (total - kept) (planSlots_pos kept)
  have hround := divCeil_mul_lt (max (divCeil (total - kept) (planSlots kept)) minSegmentBytes)
    (show 0 < 1024 * 1024 by decide)
  rw [planChunk_eq]
  simp only [minSegmentBytes] at hround ⊢
  omega

theorem planChunk64_eq (htotal : total < 2 ^ 63) :
    planChunk64 total kept = some (planChunk total kept) :=
  checkedMul_checkedMul (planChunk_lt htotal)

end Chunk

theorem planFrom64_eq {chunk total : Nat} (htotal : total < 2 ^ 63) (fuel start : Nat) :
    planFrom64 chunk total fuel start = planFrom chunk total fuel start := by
  induction fuel generalizing start with
  | zero => rfl
  | succ fuel ih =>
      have hstop : min (saturatingAdd start chunk) total = min (start + chunk) total := by
        simp only [saturatingAdd]
        omega
      rw [planFrom64, planFrom]
      simp only [hstop, ih]

theorem planSegments64_eq {total : Nat} (htotal : total < 2 ^ 63) (kept : Nat) :
    planSegments64 total kept = some (planSegments total kept) := by
  simp only [planSegments64, planChunk64_eq htotal, Option.map_some, planFrom64_eq htotal]
  rfl

/-- A round for each `chunk` of the rest. -/
theorem length_planFrom {chunk total : Nat} {slots start : Nat} (fuel : Nat)
    (h : total ≤ start + slots * chunk) : (planFrom chunk total fuel start).length ≤ slots := by
  induction fuel generalizing start slots with
  | zero => exact Nat.zero_le slots
  | succ fuel ih =>
      rw [planFrom]
      split
      · next hstart =>
          cases slots with
          | zero => omega
          | succ slots =>
              have hrest : total ≤ min (start + chunk) total + slots * chunk := by
                rw [Nat.succ_mul] at h
                omega
              have hlength := ih hrest
              rw [List.length_cons]
              omega
      · exact Nat.zero_le slots

theorem length_planSegments (total kept : Nat) :
    (planSegments total kept).length ≤ maxSegments := by
  have hrest : total ≤ min kept total +
      planSlots (min kept total) * planChunk total (min kept total) := by
    have := planSlots_mul_planChunk total (min kept total)
    omega
  have hrounds := length_planFrom (total - min kept total) hrest
  rw [planSegments, List.length_append]
  -- What is kept takes the one slot that the rest does not have.
  simp only [planSlots] at hrounds
  split at hrounds
  · next hkept =>
      rw [if_pos hkept]
      simp only [maxSegments, List.length_singleton] at hrounds ⊢
      omega
  · next hkept =>
      rw [if_neg hkept]
      simp only [maxSegments, List.length_nil] at hrounds ⊢
      omega

theorem tiles_of_coverFrom {lo hi : Nat} {segments : List Segment}
    (h : coverFrom lo segments = some hi) : Tiles lo hi segments := by
  induction segments generalizing lo with
  | nil => exact Option.some.inj h
  | cons q rest ih =>
      obtain ⟨hstart, _, _, hrest⟩ := coverFrom_cons.mp h
      exact ⟨hstart, ih hrest⟩

theorem covers_of_coverFrom {total : Nat} {segments : List Segment}
    (h : coverFrom 0 segments = some total) : Covers total segments := by
  refine ⟨tiles_of_coverFrom h, ?_, ?_⟩
  · intro byte
    constructor
    · intro ⟨q, hq, _, hbyte⟩
      have hstop := (coverFrom_mem h hq).2.2.2
      omega
    · intro hbyte
      exact coverFrom_exists h (Nat.zero_le byte) hbyte
  · intro q hq
    obtain ⟨_, hstart, hnext, _⟩ := coverFrom_mem h hq
    exact ⟨hstart, hnext⟩

/-- What was kept, and nothing else, is received. -/
theorem marked_planSegments (total kept byte : Nat) :
    (∃ q ∈ planSegments total kept, q.start ≤ byte ∧ byte < q.next) ↔ byte < min kept total := by
  constructor
  · intro ⟨q, hq, hstart, hnext⟩
    rcases (planSegments_mem hq).2 with hempty | ⟨_, hkept⟩
    · omega
    · omega
  · intro hbyte
    refine ⟨⟨0, min kept total, min kept total⟩, ?_, Nat.zero_le byte, hbyte⟩
    rw [planSegments, if_pos (by omega)]
    exact List.mem_append_left _ (List.mem_singleton.mpr rfl)

theorem partition_planSegments (total kept : Nat) :
    Partition total (min kept total) (planSegments total kept) where
  toCovers := covers_of_coverFrom (planSegments_cover total kept)
  nonempty _ hq := (planSegments_mem hq).1
  count := length_planSegments total kept
  marked := marked_planSegments total kept
  accepted := decide_eq_true (planSegments_cover total kept)

/-- Plans are partitions, and so is whatever the check accepts. -/
theorem plans_are_partitions (total kept : Fin (2 ^ 63)) :
    (∃ segments, planSegments64 total kept = some segments ∧
        Partition total (min kept total) segments) ∧
      ∀ (found : List Segment) (size : Nat), segmentsCoverTotal found size = true →
        (∀ q ∈ found, q.start ≤ q.stop) → Covers size found := by
  constructor
  · exact ⟨_, planSegments64_eq total.isLt kept, partition_planSegments total kept⟩
  -- Whoever passes the check has `start ≤ next ≤ stop` anyway.
  · intro found size haccepted _
    exact covers_of_coverFrom (of_decide_eq_true haccepted)

end Zos.Downloader
