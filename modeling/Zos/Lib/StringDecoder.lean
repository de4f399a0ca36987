import Zos.Lib.Utf8

/-!
# Decoding a stream

The decoder keeps the bytes of an unfinished character at the end of a chunk for the next one. It
looks for the first byte of that character from the end, and it goes by the number of bytes such
a first byte announces, not by whether they are well formed. What it returns in pieces is what
the decoder for whole texts returns: a byte that is not a continuation byte always begins
something new, and after as many continuation bytes as were announced nothing is open.
-/

namespace Zos.Lib

def isContinuation (b : Nat) : Bool := 0x80 ≤ b && b < 0xc0

/-- The length of the character that begins with `b`, from its leading bits. -/
def announced (b : Nat) : Nat :=
  if 0xc0 ≤ b ∧ b < 0xe0 then 2
  else if 0xe0 ≤ b ∧ b < 0xf0 then 3
  else if 0xf0 ≤ b ∧ b < 0xf8 then 4
  else 0

/-- How many bytes at the end are kept and how many of their character are missing; the bytes
come last one first, after `n` continuation bytes. -/
def lookBack (n : Nat) : List Nat → Nat × Nat
  | [] => (0, 0)
  | b :: before =>
      if isContinuation b then if 4 ≤ n + 1 then (0, 0) else lookBack (n + 1) before
      else if announced b ≤ n + 1 then (0, 0)
      else (n + 1, announced b - (n + 1))

structure StringDecoder where
  buffered : List Nat
  missing : Nat
  deriving DecidableEq, Repr

namespace StringDecoder

def empty : StringDecoder := ⟨[], 0⟩

def decodeRest (data : List Nat) : List Char × StringDecoder :=
  let kept := lookBack 0 data.reverse
  let cut := data.length - kept.1
  (Utf8.decode (data.take cut), ⟨data.drop cut, kept.2⟩)

/-- The continuation bytes at the beginning, as many as are missing. -/
def found : Nat → List Nat → List Nat
  | missing + 1, b :: data => if isContinuation b then b :: found missing data else []
  | _, _ => []

def write (d : StringDecoder) (data : List Nat) : List Char × StringDecoder :=
  if d.missing = 0 then decodeRest data
  else
    let found := found d.missing data
    if found.length = d.missing ∨ found.length < data.length then
      let rest := decodeRest (data.drop found.length)
      (Utf8.decode (d.buffered ++ found) ++ rest.1, rest.2)
    else ([], ⟨d.buffered ++ found, d.missing - found.length⟩)

/-- What `end` returns. -/
def finish (d : StringDecoder) : List Char := Utf8.decode d.buffered

end StringDecoder

namespace Utf8

/-! ## What is open after some bytes -/

structure Sane (s : State) : Prop where
  lower : 0x80 ≤ s.lower
  upper : s.upper ≤ 0xbf
  needed : s.needed ≤ 3

theorem sane_idle : Sane idle := ⟨by decide, by decide, by decide⟩

theorem sane_lead (b : Nat) : Sane (lead b).2 := by
  unfold lead
  split
  · exact sane_idle
  · split
    · exact ⟨by simp, by simp, by simp⟩
    · split
      · refine ⟨?_, ?_, by simp⟩ <;> dsimp only <;> split <;> omega
      · split
        · refine ⟨?_, ?_, by simp⟩ <;> dsimp only <;> split <;> omega
        · exact sane_idle

theorem sane_step {s : State} (h : Sane s) (b : Nat) : Sane (step s b).2 := by
  have hneeded := h.needed
  unfold step
  split
  · exact sane_lead b
  · split
    · dsimp only
      split
      · exact sane_idle
      · refine ⟨by simp, by simp, ?_⟩
        dsimp only
        omega
    · exact sane_lead b

theorem sane_feed {s : State} (h : Sane s) (bytes : List Nat) : Sane (feed s bytes).2 := by
  induction bytes generalizing s with
  | nil => exact h
  | cons b bytes ih => exact ih (sane_step h b)

theorem isContinuation_iff {b : Nat} : isContinuation b = true ↔ 0x80 ≤ b ∧ b < 0xc0 := by
  rw [isContinuation, Bool.and_eq_true, decide_eq_true_iff, decide_eq_true_iff]

theorem needed_lead (b : Nat) : (lead b).2.needed ≤ announced b - 1 := by
  unfold lead
  split
  · exact Nat.zero_le _
  · split
    · have hlength : announced b = 2 := if_pos (by omega)
      exact hlength ▸ Nat.le_refl 1
    · split
      · have hlength : announced b = 3 := by rw [announced, if_neg (by omega), if_pos (by omega)]
        exact hlength ▸ Nat.le_refl 2
      · split
        · have hlength : announced b = 4 := by
            rw [announced, if_neg (by omega), if_neg (by omega), if_pos (by omega)]
          exact hlength ▸ Nat.le_refl 3
        · exact Nat.zero_le _

theorem needed_continuation {s : State} {b : Nat} (hb : isContinuation b = true) :
    (step s b).2.needed ≤ s.needed - 1 := by
  have hlead : (lead b).2.needed = 0 := by rw [lead_continuation (isContinuation_iff.mp hb)]; rfl
  unfold step
  split
  · omega
  · split
    · dsimp only
      split
      · exact Nat.zero_le _
      · exact Nat.le_refl _
    · dsimp only
      omega

theorem needed_continuations {s : State} {bytes : List Nat}
    (h : ∀ b ∈ bytes, isContinuation b = true) :
    (feed s bytes).2.needed ≤ s.needed - bytes.length := by
  induction bytes generalizing s with
  | nil => exact Nat.le_refl _
  | cons b bytes ih =>
      have hrest := @ih (step s b).2 fun b' hb' => h b' (List.mem_cons_of_mem b hb')
      have hfirst := @needed_continuation s b (h b List.mem_cons_self)
      rw [feed, List.length_cons]
      dsimp only
      omega

/-- Any other byte begins something new, whatever was open. -/
theorem step_first {s : State} (hs : Sane s) {b : Nat} (hb : ¬isContinuation b = true) :
    step s b = (finish s ++ (lead b).1, (lead b).2) := by
  have hlower := hs.lower
  have hupper := hs.upper
  rw [isContinuation_iff] at hb
  unfold step finish
  split
  · rfl
  · rw [if_neg (by omega)]
    rfl

theorem feed_first {s : State} (hs : Sane s) {b : Nat} (hb : ¬isContinuation b = true)
    (bytes : List Nat) :
    feed s (b :: bytes) = (finish s ++ (feed idle (b :: bytes)).1, (feed idle (b :: bytes)).2) := by
  simp only [feed, step_first hs hb, step_idle, List.append_assoc]

theorem decode_append_first {front : List Nat} {b : Nat} (hb : ¬isContinuation b = true)
    (back : List Nat) : decode (front ++ b :: back) = decode front ++ decode (b :: back) := by
  rw [decode, feed_append, feed_first (sane_feed sane_idle front) hb]
  simp only [decode, List.append_assoc]

theorem feed_needed_zero {s : State} (hs : s.needed = 0) (bytes : List Nat) :
    (feed s bytes).1 ++ finish (feed s bytes).2 = decode bytes := by
  cases bytes with
  | nil => exact if_pos hs
  | cons b bytes =>
      simp only [decode, feed, step, if_pos hs, show idle.needed = 0 from rfl, if_true]

theorem decode_append_closed {front : List Nat} (h : (feed idle front).2.needed = 0)
    (back : List Nat) : decode (front ++ back) = decode front ++ decode back := by
  have hfront : decode front = (feed idle front).1 := by
    rw [decode, finish, if_pos h, List.append_nil]
  rw [hfront, decode, feed_append, List.append_assoc, feed_needed_zero h]

/-- After as many bytes as were announced nothing is open. -/
theorem closed_of_announced {front more : List Nat} {b : Nat} (hb : ¬isContinuation b = true)
    (hmore : ∀ b ∈ more, isContinuation b = true) (h : announced b ≤ more.length + 1) :
    (feed idle (front ++ b :: more)).2.needed = 0 := by
  have hfirst := needed_lead b
  have hrest := @needed_continuations (lead b).2 more hmore
  rw [feed_append]
  dsimp only
  rw [feed, step_first (sane_feed sane_idle front) hb]
  dsimp only
  omega

end Utf8

open Utf8

/-- Either nothing is open at the end, or the bytes from the first one of a character on are
kept. -/
theorem lookBack_cases (reversed more : List Nat) (hmore : ∀ b ∈ more, isContinuation b = true)
    (hlength : more.length < 4) :
    (lookBack more.length reversed = (0, 0) ∧
        (feed idle (reversed.reverse ++ more)).2.needed = 0) ∨
      ∃ front b tail, reversed.reverse ++ more = front ++ b :: tail ∧
        ¬isContinuation b = true ∧ (∀ b ∈ tail, isContinuation b = true) ∧
        tail.length + 1 < announced b ∧
        lookBack more.length reversed = (tail.length + 1, announced b - (tail.length + 1)) := by
  induction reversed generalizing more with
  | nil =>
      have hneeded := @needed_continuations idle more hmore
      exact .inl ⟨rfl, Nat.le_zero.mp (Nat.le_trans hneeded (Nat.sub_le ..))⟩
  | cons b before ih =>
      rw [lookBack, List.reverse_cons, List.append_assoc, List.singleton_append]
      split
      · next hb =>
          have hall : ∀ b' ∈ b :: more, isContinuation b' = true := by
            intro b' hb'
            rcases List.mem_cons.mp hb' with rfl | hb'
            · exact hb
            · exact hmore b' hb'
          split
          · next hmany =>
              refine .inl ⟨rfl, ?_⟩
              have hopen := (sane_feed sane_idle before.reverse).needed
              have hneeded := @needed_continuations (feed idle before.reverse).2 _ hall
              rw [List.length_cons] at hneeded
              rw [feed_append]
              dsimp only
              omega
          · exact ih (b :: more) hall (by rw [List.length_cons]; omega)
      · next hb =>
          split
          · next henough => exact .inl ⟨rfl, closed_of_announced hb hmore henough⟩
          · next hshort => exact .inr ⟨before.reverse, b, more, rfl, hb, hmore, by omega, rfl⟩

namespace StringDecoder

/-- Nothing is kept, or the beginning of a character with bytes missing. -/
def Ready (d : StringDecoder) : Prop :=
  d = empty ∨ ∃ b tail, d.buffered = b :: tail ∧ ¬isContinuation b = true ∧
    (∀ b ∈ tail, isContinuation b = true) ∧ 0 < d.missing ∧
    announced b = tail.length + 1 + d.missing

/-- What is returned and what is kept make up the text. -/
def Continues (result : List Char × StringDecoder) (bytes : List Nat) : Prop :=
  result.2.Ready ∧ ∀ rest, result.1 ++ decode (result.2.buffered ++ rest) = decode (bytes ++ rest)

theorem decodeRest_continues (data : List Nat) : Continues (decodeRest data) data := by
  have hcases := lookBack_cases data.reverse [] nofun (by decide)
  rw [List.reverse_reverse, List.append_nil, List.length_nil] at hcases
  rcases hcases with ⟨hkept, hclosed⟩ | ⟨front, b, tail, rfl, hb, htail, hshort, hkept⟩
  · simp only [decodeRest, hkept, Nat.sub_zero, List.take_length, List.drop_length]
    exact ⟨.inl rfl, fun rest => (decode_append_closed hclosed rest).symm⟩
  · have hcut : (front ++ b :: tail).length - (tail.length + 1) = front.length := by
      rw [List.length_append, List.length_cons]
      omega
    simp only [decodeRest, hkept, hcut, List.take_left, List.drop_left]
    refine ⟨.inr ⟨b, tail, rfl, hb, htail, by dsimp only; omega, by dsimp only; omega⟩, ?_⟩
    intro rest
    dsimp only
    rw [List.append_assoc, List.cons_append, decode_append_first hb]

/-- The bytes that are found end where no more are missing, with the chunk, or where the
character breaks off. -/
theorem found_cases (missing : Nat) (data : List Nat) :
    ∃ rest, data = found missing data ++ rest ∧
      (∀ b ∈ found missing data, isContinuation b = true) ∧
      ((found missing data).length = missing ∨ (found missing data).length < missing ∧
        (rest = [] ∨ ∃ b back, rest = b :: back ∧ ¬isContinuation b = true)) := by
  induction missing generalizing data with
  | zero => exact ⟨data, rfl, nofun, .inl rfl⟩
  | succ missing ih =>
      cases data with
      | nil => exact ⟨[], rfl, nofun, .inr ⟨Nat.succ_pos missing, .inl rfl⟩⟩
      | cons b data =>
          rw [found]
          split
          · next hb =>
              obtain ⟨rest, hdata, hall, hend⟩ := ih data
              refine ⟨rest, congrArg (b :: ·) hdata, ?_, ?_⟩
              · intro b' hb'
                rcases List.mem_cons.mp hb' with rfl | hb'
                · exact hb
                · exact hall b' hb'
              · rw [List.length_cons]
                exact hend.imp (congrArg (· + 1)) fun h => ⟨Nat.succ_lt_succ h.1, h.2⟩
          · next hb =>
              exact ⟨b :: data, rfl, nofun, .inr ⟨Nat.succ_pos missing, .inr ⟨b, data, rfl, hb⟩⟩⟩

theorem write_continues {d : StringDecoder} (h : d.Ready) (data : List Nat) :
    Continues (d.write data) (d.buffered ++ data) := by
  rcases h with rfl | ⟨b, tail, hbuffered, hb, htail, hmissing, hannounced⟩
  · exact decodeRest_continues data
  · obtain ⟨rest, hdata, hfound, hend⟩ := found_cases d.missing data
    have hall : ∀ b ∈ tail ++ found d.missing data, isContinuation b = true := by
      intro b' hb'
      rcases List.mem_append.mp hb' with hb' | hb'
      · exact htail b' hb'
      · exact hfound b' hb'
    rw [write, if_neg (Nat.ne_of_gt hmissing)]
    dsimp only
    generalize found d.missing data = more at hdata hall hend ⊢
    subst hdata
    rw [List.drop_left, List.length_append]
    split
    · next hdone =>
        obtain ⟨hready, hrest⟩ := decodeRest_continues rest
        refine ⟨hready, fun after => ?_⟩
        -- The character ends here, complete or not.
        have hends : decode (d.buffered ++ more ++ (rest ++ after)) =
            decode (d.buffered ++ more) ++ decode (rest ++ after) := by
          rcases hend with hcomplete | ⟨hshort, rfl | ⟨b', back, rfl, hb'⟩⟩
          · refine decode_append_closed ?_ _
            rw [hbuffered, List.cons_append, ← List.nil_append (b :: (tail ++ more))]
            refine closed_of_announced hb hall ?_
            rw [List.length_append]
            omega
          · rw [List.length_nil] at hdone
            omega
          · exact decode_append_first hb' _
        dsimp only
        rw [List.append_assoc, hrest, ← hends]
        simp only [List.append_assoc]
    · next hopen =>
        rcases hend with hcomplete | ⟨hshort, rfl | ⟨b', back, rfl, hb'⟩⟩
        · omega
        · rw [List.append_nil]
          refine ⟨.inr ⟨b, tail ++ more, ?_, hb, hall, Nat.sub_pos_of_lt hshort, ?_⟩, fun _ => rfl⟩
          · rw [hbuffered, List.cons_append]
          · rw [List.length_append]
            dsimp only
            omega
        · rw [List.length_cons] at hopen
          omega

end StringDecoder

end Zos.Lib
