import Mathlib.Algebra.GroupWithZero.Nat
import Zos.Lib.Utf8

/-!
# How long a decoded text is

A part of the bytes that is no character becomes a replacement character, which takes three bytes
when it is written again. Such a part has one, two or three bytes, so decoding never makes a text
shorter, and it makes it longer by what the parts lack to three (`growth`).
-/

namespace Zos.Lib.Utf8

def byteCount (text : List Char) : Nat := (text.map Char.utf8Size).sum

theorem byteCount_append (a b : List Char) : byteCount (a ++ b) = byteCount a + byteCount b := by
  simp [byteCount]

/-- No character begins with this byte. -/
def startsNone (b : Nat) : Bool := (0x80 ≤ b && b < 0xc2) || 0xf4 < b

/-- The lengths of the parts that are replaced, where `held` bytes of a character were read. -/
def brokenFrom (s : State) (held : Nat) : List Nat → List Nat
  | [] => if s.needed = 0 then [] else [held]
  | b :: bytes =>
      if s.needed ≠ 0 ∧ s.lower ≤ b ∧ b ≤ s.upper then brokenFrom (step s b).2 (held + 1) bytes
      else
        (if s.needed = 0 then [] else [held]) ++ (if startsNone b then [1] else []) ++
          brokenFrom (lead b).2 1 bytes

def broken (bytes : List Nat) : List Nat := brokenFrom idle 0 bytes

def growthOf (parts : List Nat) : Nat := (parts.map (3 - ·)).sum

def growth (bytes : List Nat) : Nat := growthOf (broken bytes)

theorem growthOf_append (a b : List Nat) : growthOf (a ++ b) = growthOf a + growthOf b := by
  simp [growthOf]

/-! ## The bytes of one character -/

/-- What is open after the first bytes of a character: their number, and what the next one may
be. -/
inductive Partial : State → Nat → Prop where
  | two {v : Nat} : 0x2 ≤ v → v < 0x20 → Partial ⟨1, v, 0x80, 0xbf⟩ 1
  | three {v : Nat} : v < 0x10 →
      Partial ⟨2, v, if v = 0 then 0xa0 else 0x80, if v = 0xd then 0x9f else 0xbf⟩ 1
  | threeMore {v : Nat} : 0x20 ≤ v → v < 0x400 → ¬(0x360 ≤ v ∧ v < 0x380) →
      Partial ⟨1, v, 0x80, 0xbf⟩ 2
  | four {v : Nat} : v < 0x5 →
      Partial ⟨3, v, if v = 0 then 0x90 else 0x80, if v = 4 then 0x8f else 0xbf⟩ 1
  | fourMore {v : Nat} : 0x10 ≤ v → v < 0x110 → Partial ⟨2, v, 0x80, 0xbf⟩ 2
  | fourLast {v : Nat} : 0x400 ≤ v → v < 0x4400 → Partial ⟨1, v, 0x80, 0xbf⟩ 3

theorem utf8Size_ofNat {n : Nat} (h : n < 0xd800 ∨ 0xdfff < n ∧ n < 0x110000) :
    (Char.ofNat n).utf8Size =
      if n < 0x80 then 1 else if n < 0x800 then 2 else if n < 0x10000 then 3 else 4 := by
  have hvalue : (Char.ofNat n).toNat = n := by
    rw [Char.ofNat, dif_pos h]
    rfl
  have hle (bound : Nat) (hbound : bound < UInt32.size) :
      (Char.ofNat n).val ≤ UInt32.ofNatLT bound hbound ↔ n < bound + 1 := by
    rw [UInt32.le_iff_toNat_le, UInt32.toNat_ofNatLT, Nat.lt_succ_iff]
    exact iff_of_eq (congrArg (· ≤ bound) hvalue)
  simp only [Char.utf8Size, hle]

theorem Partial.needed_ne_zero {s : State} {held : Nat} (h : Partial s held) : s.needed ≠ 0 := by
  cases h <;> exact Nat.succ_ne_zero _

theorem Partial.held_le {s : State} {held : Nat} (h : Partial s held) : held ≤ 3 := by
  cases h <;> omega

/-- A byte in range completes the character, or brings it further. -/
theorem Partial.step {s : State} {held b : Nat} (h : Partial s held)
    (hb : s.lower ≤ b ∧ b ≤ s.upper) :
    (∃ c, Utf8.step s b = ([c], idle) ∧ c.utf8Size = held + 1) ∨
      ∃ next, Utf8.step s b = ([], next) ∧ Partial next (held + 1) := by
  cases h with
  | two hlow hhigh =>
      refine .inl ⟨_, step_last hb, ?_⟩
      dsimp only at hb
      rw [utf8Size_ofNat (by omega), if_neg (by omega), if_pos (by omega)]
  | three hv =>
      refine .inr ⟨_, step_more hb, .threeMore ?_ ?_ ?_⟩ <;> dsimp only at hb <;> split at hb <;>
        split at hb <;> omega
  | threeMore hlow hhigh hsurrogate =>
      refine .inl ⟨_, step_last hb, ?_⟩
      dsimp only at hb
      rw [utf8Size_ofNat (by omega), if_neg (by omega), if_neg (by omega), if_pos (by omega)]
  | four hv =>
      refine .inr ⟨_, step_more hb, .fourMore ?_ ?_⟩ <;> dsimp only at hb <;> split at hb <;>
        split at hb <;> omega
  | fourMore hlow hhigh =>
      refine .inr ⟨_, step_more hb, .fourLast ?_ ?_⟩ <;> dsimp only at hb <;> omega
  | fourLast hlow hhigh =>
      refine .inl ⟨_, step_last hb, ?_⟩
      dsimp only at hb
      rw [utf8Size_ofNat (by omega), if_neg (by omega), if_neg (by omega), if_neg (by omega)]

/-- A first byte is a character, begins one, or is replaced. -/
theorem lead_cases (b : Nat) :
    (∃ c, lead b = ([c], idle) ∧ c.utf8Size = 1 ∧ startsNone b = false) ∨
      (∃ next, lead b = ([], next) ∧ Partial next 1 ∧ startsNone b = false) ∨
      lead b = ([replacement], idle) ∧ startsNone b = true := by
  have hstarts : startsNone b = true ↔ (0x80 ≤ b ∧ b < 0xc2) ∨ 0xf4 < b := by
    simp [startsNone]
  rw [← Bool.not_eq_true, hstarts]
  unfold lead
  split
  · exact .inl ⟨_, rfl, by rw [utf8Size_ofNat (by omega), if_pos (by omega)], by omega⟩
  · split
    · exact .inr (.inl ⟨_, rfl, .two (by omega) (by omega), by omega⟩)
    · split
      · refine .inr (.inl ⟨_, rfl, ?_, by omega⟩)
        have hthree := @Partial.three (b - 0xe0) (by omega)
        have hlow : b - 0xe0 = 0 ↔ b = 0xe0 := by omega
        have hhigh : b - 0xe0 = 0xd ↔ b = 0xed := by omega
        simpa only [hlow, hhigh] using hthree
      · split
        · refine .inr (.inl ⟨_, rfl, ?_, by omega⟩)
          have hfour := @Partial.four (b - 0xf0) (by omega)
          have hlow : b - 0xf0 = 0 ↔ b = 0xf0 := by omega
          have hhigh : b - 0xf0 = 4 ↔ b = 0xf4 := by omega
          simpa only [hlow, hhigh] using hfour
        · exact .inr (.inr ⟨rfl, by omega⟩)

/-- What is decoded from here on. -/
def rest (s : State) (bytes : List Nat) : List Char := (feed s bytes).1 ++ finish (feed s bytes).2

theorem rest_cons (s : State) (b : Nat) (bytes : List Nat) :
    rest s (b :: bytes) = (step s b).1 ++ rest (step s b).2 bytes := by
  rw [rest, feed, List.append_assoc, rest]

/-- A byte that begins something new. -/
theorem byteCount_lead {bytes : List Nat}
    (ih : ∀ {s : State} {held : Nat}, s.needed = 0 ∨ Partial s held →
      byteCount (rest s bytes) = bytes.length + (if s.needed = 0 then 0 else held) +
        growthOf (brokenFrom s held bytes)) (b : Nat) :
    byteCount ((lead b).1 ++ rest (lead b).2 bytes) = bytes.length + 1 +
      growthOf ((if startsNone b then [1] else []) ++ brokenFrom (lead b).2 1 bytes) := by
  rw [byteCount_append, growthOf_append]
  rcases lead_cases b with ⟨c, hlead, hsize, hstarts⟩ | ⟨next, hlead, hpartial, hstarts⟩ |
    ⟨hlead, hstarts⟩
  · have hc : byteCount [c] = 1 := hsize
    rw [hlead, hstarts, @ih idle 1 (.inl rfl), hc, if_pos (show idle.needed = 0 from rfl)]
    simp only [Bool.false_eq_true, if_false, growthOf, List.map_nil, List.sum_nil]
    omega
  · rw [hlead, hstarts, ih (.inr hpartial), if_neg hpartial.needed_ne_zero]
    simp only [Bool.false_eq_true, if_false, growthOf, byteCount, List.map_nil, List.sum_nil]
    omega
  · have hc : byteCount [replacement] = 3 := by decide
    have hpart : growthOf [1] = 2 := by decide
    rw [hlead, hstarts, @ih idle 1 (.inl rfl), hc, if_pos (show idle.needed = 0 from rfl),
      if_pos rfl, hpart]
    dsimp only
    omega

theorem byteCount_rest {s : State} {held : Nat} (h : s.needed = 0 ∨ Partial s held)
    (bytes : List Nat) :
    byteCount (rest s bytes) =
      bytes.length + (if s.needed = 0 then 0 else held) + growthOf (brokenFrom s held bytes) := by
  induction bytes generalizing s held with
  | nil =>
      rw [rest, feed, finish, brokenFrom]
      rcases h with hidle | hpartial
      · rw [if_pos hidle, if_pos hidle, if_pos hidle]
        rfl
      · have hheld := hpartial.held_le
        have hc : byteCount ([] ++ [replacement]) = 3 := by decide
        rw [if_neg hpartial.needed_ne_zero, if_neg hpartial.needed_ne_zero,
          if_neg hpartial.needed_ne_zero, hc]
        simp only [growthOf, List.map_cons, List.map_nil, List.sum_cons, List.sum_nil,
          List.length_nil]
        omega
  | cons b bytes ih =>
      have hlead := byteCount_lead @ih b
      rw [rest_cons, brokenFrom, List.length_cons]
      rcases h with hidle | hpartial
      · have hstep : step s b = lead b := if_pos hidle
        have hopen : ¬(s.needed ≠ 0 ∧ s.lower ≤ b ∧ b ≤ s.upper) := fun hopen => hopen.1 hidle
        rw [if_neg hopen, if_pos hidle, if_pos hidle, hstep, hlead, List.nil_append]
      · have hopen := hpartial.needed_ne_zero
        rw [if_neg hopen]
        split
        · next hrange =>
            rw [byteCount_append]
            rcases hpartial.step hrange.2 with ⟨c, hstep, hsize⟩ | ⟨next, hstep, hnext⟩
            · have hc : byteCount [c] = held + 1 := hsize
              rw [hstep, @ih idle (held + 1) (.inl rfl), hc, if_pos (show idle.needed = 0 from rfl)]
              dsimp only
              omega
            · rw [hstep, ih (.inr hnext), if_neg hnext.needed_ne_zero]
              simp only [byteCount, List.map_nil, List.sum_nil]
              omega
        · next hrange =>
            -- The open part is replaced, and the byte is read again as a first one.
            have hstep : step s b = (replacement :: (lead b).1, (lead b).2) := by
              rw [step, if_neg hopen, if_neg (fun hb => hrange ⟨hopen, hb⟩)]
            have hheld := hpartial.held_le
            have hc : byteCount [replacement] = 3 := by decide
            have hpart : growthOf [held] = 3 - held := by simp [growthOf]
            rw [hstep, List.append_assoc, growthOf_append, hpart]
            dsimp only
            rw [List.cons_append, ← List.singleton_append, byteCount_append, hc, hlead]
            omega

theorem byteCount_decode (bytes : List Nat) :
    byteCount (decode bytes) = bytes.length + growth bytes :=
  byteCount_rest (.inl rfl) bytes

end Zos.Lib.Utf8
