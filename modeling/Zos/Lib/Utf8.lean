import Mathlib.Data.List.Basic

/-!
# UTF-8 in pieces

Bytes are numbers. The decoder is the one of the Encoding Standard: a byte that cannot follow ends
what came before with one replacement character, and so does the end of the input. A text whose
bytes are cut into chunks, each decoded by itself, comes back with every character that was cut
turned into replacement characters, and nothing else changed.
-/

namespace Zos.Lib.Utf8

def encodeChar (c : Char) : List Nat :=
  let v := c.toNat
  if v < 0x80 then [v]
  else if v < 0x800 then [0xc0 + v / 64, 0x80 + v % 64]
  else if v < 0x10000 then [0xe0 + v / 4096, 0x80 + v / 64 % 64, 0x80 + v % 64]
  else [0xf0 + v / 262144, 0x80 + v / 4096 % 64, 0x80 + v / 64 % 64, 0x80 + v % 64]

def encode (text : List Char) : List Nat := text.flatMap encodeChar

def replacement : Char := '�'

/-- How many bytes are missing, the value so far, and the range of the next byte. -/
structure State where
  needed : Nat
  value : Nat
  lower : Nat
  upper : Nat
  deriving DecidableEq, Repr

def idle : State := ⟨0, 0, 0x80, 0xbf⟩

def lead (b : Nat) : List Char × State :=
  if b < 0x80 then ([Char.ofNat b], idle)
  else if 0xc2 ≤ b ∧ b ≤ 0xdf then ([], ⟨1, b - 0xc0, 0x80, 0xbf⟩)
  else if 0xe0 ≤ b ∧ b ≤ 0xef then
    ([], ⟨2, b - 0xe0, if b = 0xe0 then 0xa0 else 0x80, if b = 0xed then 0x9f else 0xbf⟩)
  else if 0xf0 ≤ b ∧ b ≤ 0xf4 then
    ([], ⟨3, b - 0xf0, if b = 0xf0 then 0x90 else 0x80, if b = 0xf4 then 0x8f else 0xbf⟩)
  else ([replacement], idle)

def step (s : State) (b : Nat) : List Char × State :=
  if s.needed = 0 then lead b
  else if s.lower ≤ b ∧ b ≤ s.upper then
    let value := s.value * 64 + (b - 0x80)
    if s.needed = 1 then ([Char.ofNat value], idle) else ([], ⟨s.needed - 1, value, 0x80, 0xbf⟩)
  else (replacement :: (lead b).1, (lead b).2)

def feed (s : State) : List Nat → List Char × State
  | [] => ([], s)
  | b :: bytes =>
      ((step s b).1 ++ (feed (step s b).2 bytes).1, (feed (step s b).2 bytes).2)

def finish (s : State) : List Char := if s.needed = 0 then [] else [replacement]

def decode (bytes : List Nat) : List Char := (feed idle bytes).1 ++ finish (feed idle bytes).2

/-! ## One character -/

theorem feed_append (s : State) (front back : List Nat) :
    feed s (front ++ back) =
      ((feed s front).1 ++ (feed (feed s front).2 back).1, (feed (feed s front).2 back).2) := by
  induction front generalizing s with
  | nil => rfl
  | cons b front ih => simp only [List.cons_append, feed, ih, List.append_assoc]

theorem toNat_range (c : Char) : c.toNat < 0xd800 ∨ 0xdfff < c.toNat ∧ c.toNat < 0x110000 := c.valid

theorem step_idle (b : Nat) : step idle b = lead b := if_pos rfl

section Step

variable {needed value lower upper b : Nat}

theorem step_more (h : lower ≤ b ∧ b ≤ upper) :
    step ⟨needed + 2, value, lower, upper⟩ b =
      ([], ⟨needed + 1, value * 64 + (b - 0x80), 0x80, 0xbf⟩) := by
  simp [step, h]

theorem step_last (h : lower ≤ b ∧ b ≤ upper) :
    step ⟨1, value, lower, upper⟩ b = ([Char.ofNat (value * 64 + (b - 0x80))], idle) := by
  simp [step, h]

/-- A byte from the middle of a character starts none. -/
theorem lead_continuation (h : 0x80 ≤ b ∧ b < 0xc0) : lead b = ([replacement], idle) := by
  unfold lead
  rw [if_neg (by omega), if_neg (by omega), if_neg (by omega), if_neg (by omega)]

end Step

/-- `bytes` lead through states that wait for more, and the last byte gives `c`. -/
def Spells (s : State) (c : Char) : List Nat → Prop
  | [] => False
  | [b] => step s b = ([c], idle)
  | b :: bytes => ∃ next, step s b = ([], next) ∧ next.needed ≠ 0 ∧ Spells next c bytes

theorem spells_encodeChar (c : Char) : Spells idle c (encodeChar c) := by
  have hrange := toNat_range c
  have hchar {n : Nat} (h : n = c.toNat) : Char.ofNat n = c := by rw [h, Char.ofNat_toNat]
  simp only [encodeChar]
  split
  · next h =>
      rw [Spells, step_idle, lead, if_pos h, hchar rfl]
  · split
    · next h₁ h₂ =>
        refine ⟨⟨1, c.toNat / 64, 0x80, 0xbf⟩, ?_, by simp, ?_⟩
        · rw [step_idle, lead, if_neg (by omega), if_pos (by omega), Nat.add_sub_cancel_left]
        · rw [Spells, step_last (by omega), hchar (by omega)]
    · split
      · next h₁ h₂ h₃ =>
          refine ⟨⟨2, c.toNat / 4096, if 0xe0 + c.toNat / 4096 = 0xe0 then 0xa0 else 0x80,
            if 0xe0 + c.toNat / 4096 = 0xed then 0x9f else 0xbf⟩, ?_, by simp, ?_⟩
          · rw [step_idle, lead, if_neg (by omega), if_neg (by omega), if_pos (by omega),
              Nat.add_sub_cancel_left]
          · refine ⟨⟨1, c.toNat / 4096 * 64 + c.toNat / 64 % 64, 0x80, 0xbf⟩, ?_, by simp, ?_⟩
            · rw [step_more, Nat.add_sub_cancel_left]
              constructor <;> split <;> omega
            · rw [Spells, step_last (by omega), hchar (by omega)]
      · next h₁ h₂ h₃ =>
          refine ⟨⟨3, c.toNat / 262144, if 0xf0 + c.toNat / 262144 = 0xf0 then 0x90 else 0x80,
            if 0xf0 + c.toNat / 262144 = 0xf4 then 0x8f else 0xbf⟩, ?_, by simp, ?_⟩
          · rw [step_idle, lead, if_neg (by omega), if_neg (by omega), if_neg (by omega),
              if_pos (by omega), Nat.add_sub_cancel_left]
          · refine ⟨⟨2, c.toNat / 262144 * 64 + c.toNat / 4096 % 64, 0x80, 0xbf⟩, ?_, by simp, ?_⟩
            · rw [step_more, Nat.add_sub_cancel_left]
              constructor <;> split <;> omega
            · refine ⟨⟨1, (c.toNat / 262144 * 64 + c.toNat / 4096 % 64) * 64 + c.toNat / 64 % 64,
                0x80, 0xbf⟩, ?_, by simp, ?_⟩
              · rw [step_more (by omega), Nat.add_sub_cancel_left]
              · rw [Spells, step_last (by omega), hchar (by omega)]

theorem Spells.feed {s : State} {c : Char} {bytes : List Nat} (h : Spells s c bytes) :
    feed s bytes = ([c], idle) := by
  induction bytes generalizing s with
  | nil => exact h.elim
  | cons b bytes ih =>
      cases bytes with
      | nil =>
          have hstep : step s b = ([c], idle) := h
          simp [Utf8.feed, hstep]
      | cons b' bytes =>
          obtain ⟨next, hstep, _, hrest⟩ := h
          rw [Utf8.feed, hstep, ih hrest]
          rfl

theorem decode_encodeChar_append (c : Char) (bytes : List Nat) :
    decode (encodeChar c ++ bytes) = c :: decode bytes := by
  rw [decode, feed_append, (spells_encodeChar c).feed, decode]
  rfl

theorem decode_encode_append (text : List Char) (bytes : List Nat) :
    decode (encode text ++ bytes) = text ++ decode bytes := by
  induction text with
  | nil => rfl
  | cons c text ih =>
      have hcons : encode (c :: text) = encodeChar c ++ encode text := List.flatMap_cons
      rw [hcons, List.append_assoc, decode_encodeChar_append, ih, List.cons_append]

theorem decode_encode (text : List Char) : decode (encode text) = text := by
  have h := decode_encode_append text []
  rwa [List.append_nil, show decode [] = [] from rfl, List.append_nil] at h

end Zos.Lib.Utf8
