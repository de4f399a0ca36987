import Zos.Termux.Frames

/-!
# Frames and the cuts of the stream they arrive in

What a stream means is said by lines (`decode`), with no reads in it. The reader measures an
unfinished buffer against the limit that is meant for a frame without its line ending, so the two
part exactly where a frame of the full length ends in `\r\n` (`FullLine`): a read may end between
these two bytes.
-/

namespace Zos.Termux.Frames

/-! ## What a stream means -/

def Accepted (frame : Bytes) : Prop := frame ≠ [] ∧ frame.length ≤ maxFrameBytes

instance (frame : Bytes) : Decidable (Accepted frame) := inferInstanceAs (Decidable (_ ∧ _))

structure Meaning where
  frames : List Bytes
  clean : Bool
  deriving DecidableEq, Repr

def decode (stream : Bytes) : Meaning :=
  match _h : splitLine stream with
  | none => ⟨[], stream.isEmpty⟩
  | some (line, rest) =>
      if Accepted (dropReturn line) then
        let meaning := decode rest
        { meaning with frames := dropReturn line :: meaning.frames }
      else ⟨[], false⟩
termination_by stream.length
decreasing_by exact length_splitLine _h

def Reading.meaning (reading : Reading) : Meaning := ⟨reading.frames, reading.ending = .clean⟩

def Poll.bytes : Poll → Bytes
  | .read chunk => chunk.bytes
  | .cancelled => []

def received (polls : List Poll) : Bytes := polls.flatMap Poll.bytes

/-- The reader gets to a frame of the full length that ends in `\r\n`. -/
inductive FullLine : Bytes → Prop where
  | here {frame : Bytes} (rest : Bytes) :
      newline ∉ frame → frame.length = maxFrameBytes →
      FullLine (frame ++ carriageReturn :: newline :: rest)
  | later {line rest : Bytes} :
      newline ∉ line → Accepted (dropReturn line) → FullLine rest →
      FullLine (line ++ newline :: rest)

/-! ## Lines -/

theorem splitLine_of_not_mem {bytes : Bytes} (h : newline ∉ bytes) : splitLine bytes = none := by
  induction bytes with
  | nil => rfl
  | cons byte bytes ih =>
      rw [List.mem_cons, not_or] at h
      unfold splitLine
      rw [if_neg (Ne.symm h.1), ih h.2]
      rfl

theorem splitLine_append {line : Bytes} (h : newline ∉ line) (rest : Bytes) :
    splitLine (line ++ newline :: rest) = some (line, rest) := by
  induction line with
  | nil => rfl
  | cons byte line ih =>
      rw [List.mem_cons, not_or] at h
      rw [List.cons_append]
      unfold splitLine
      rw [if_neg (Ne.symm h.1), ih h.2]
      rfl

theorem eq_of_splitLine {bytes line rest : Bytes} (h : splitLine bytes = some (line, rest)) :
    bytes = line ++ newline :: rest ∧ newline ∉ line := by
  by_cases hmem : newline ∈ bytes
  · obtain ⟨before, after, heq, hbefore⟩ := List.eq_append_cons_of_mem hmem
    rw [heq, splitLine_append hbefore] at h
    cases h
    exact ⟨heq, hbefore⟩
  · rw [splitLine_of_not_mem hmem] at h
    cases h

theorem not_mem_of_splitLine {bytes : Bytes} (h : splitLine bytes = none) : newline ∉ bytes := by
  intro hmem
  obtain ⟨before, after, heq, hbefore⟩ := List.eq_append_cons_of_mem hmem
  rw [heq, splitLine_append hbefore] at h
  cases h

theorem dropReturn_append (frame : Bytes) : dropReturn (frame ++ [carriageReturn]) = frame := by
  unfold dropReturn
  rw [if_pos List.getLast?_concat, List.dropLast_concat]

theorem length_le_dropReturn (line : Bytes) : line.length ≤ (dropReturn line).length + 1 := by
  unfold dropReturn
  split
  · rw [List.length_dropLast]
    omega
  · omega

theorem accepted_iff (frame : Bytes) :
    Accepted frame ↔ ¬ (frame.isEmpty ∨ frame.length > maxFrameBytes) := by
  rw [Accepted, not_or, List.isEmpty_iff, Nat.not_lt]

/-! ## One call after another -/

section Steps

variable {buffer line rest : Bytes} {polls : List Poll}

theorem decode_line (h : splitLine buffer = some (line, rest))
    (haccepted : Accepted (dropReturn line)) :
    decode buffer = ⟨dropReturn line :: (decode rest).frames, (decode rest).clean⟩ := by
  rw [decode]
  split
  · rename_i hnone
    rw [h] at hnone
    cases hnone
  · rename_i hsome
    rw [h] at hsome
    cases hsome
    rw [if_pos haccepted]

theorem decode_refused (h : splitLine buffer = some (line, rest))
    (hrefused : ¬ Accepted (dropReturn line)) : decode buffer = ⟨[], false⟩ := by
  rw [decode]
  split
  · rename_i hnone
    rw [h] at hnone
    cases hnone
  · rename_i hsome
    rw [h] at hsome
    cases hsome
    rw [if_neg hrefused]

theorem decode_unfinished (h : newline ∉ buffer) : decode buffer = ⟨[], buffer.isEmpty⟩ := by
  rw [decode]
  split
  · rfl
  · rename_i hsome
    rw [splitLine_of_not_mem h] at hsome
    cases hsome

/-- A line that is complete is taken or refused. -/
theorem readAll_of_splitLine (h : splitLine buffer = some (line, rest)) :
    readAll buffer polls =
      if (dropReturn line).isEmpty ∨ (dropReturn line).length > maxFrameBytes then
        ⟨[], .rejected .frameSize⟩
      else ⟨dropReturn line :: (readAll rest polls).frames, (readAll rest polls).ending⟩ := by
  rw [readAll.eq_def]
  split
  · rename_i hsome
    rw [h] at hsome
    cases hsome
    rfl
  · rename_i hnone
    rw [h] at hnone
    cases hnone

theorem readAll_line (h : splitLine buffer = some (line, rest))
    (haccepted : Accepted (dropReturn line)) :
    readAll buffer polls =
      ⟨dropReturn line :: (readAll rest polls).frames, (readAll rest polls).ending⟩ := by
  rw [readAll_of_splitLine h, if_neg ((accepted_iff _).mp haccepted)]

theorem readAll_refused (h : splitLine buffer = some (line, rest))
    (hrefused : ¬ Accepted (dropReturn line)) :
    readAll buffer polls = ⟨[], .rejected .frameSize⟩ := by
  rw [readAll_of_splitLine h, if_pos (not_not.mp (mt (accepted_iff _).mpr hrefused))]

/-- Without a newline in the buffer the calls go by its length and the next poll. -/
theorem readAll_unfinished (h : newline ∉ buffer) :
    readAll buffer polls =
      if buffer.length > maxFrameBytes then ⟨[], .rejected .tooLarge⟩
      else
        match polls with
        | [] => ⟨[], if buffer.isEmpty then .clean else .rejected .unfinished⟩
        | .cancelled :: polls => readAll buffer polls
        | .read chunk :: polls => readAll (buffer ++ chunk.bytes) polls := by
  rw [readAll.eq_def]
  split
  · rename_i hsome
    rw [splitLine_of_not_mem h] at hsome
    cases hsome
  · rfl

end Steps

/-! ## Away from full lines every cut reads the same -/

theorem splitLine_append_right {buffer line rest : Bytes}
    (h : splitLine buffer = some (line, rest)) (more : Bytes) :
    splitLine (buffer ++ more) = some (line, rest ++ more) := by
  obtain ⟨heq, hline⟩ := eq_of_splitLine h
  rw [heq, List.append_assoc, List.cons_append]
  exact splitLine_append hline _

/-- An accepted line that is longer than the limit is a full frame with its carriage return. -/
theorem fullLine_of_long {line : Bytes} (hline : newline ∉ line)
    (haccepted : Accepted (dropReturn line)) (hlong : line.length > maxFrameBytes) (rest : Bytes) :
    FullLine (line ++ newline :: rest) := by
  have hfits : (dropReturn line).length ≤ maxFrameBytes := haccepted.2
  have hnear := length_le_dropReturn line
  unfold dropReturn at hfits hnear
  split at hfits
  · rename_i hlast
    rw [if_pos hlast] at hnear
    have heq : line.dropLast ++ [carriageReturn] = line :=
      List.dropLast_append_getLast? _ hlast
    rw [← heq, List.append_assoc]
    exact .here rest (fun hmem => hline ((List.dropLast_subset line) hmem)) (by omega)
  · omega

/-- The early test on the buffer refuses nothing that the lines would have accepted. -/
theorem decode_of_long {buffer more : Bytes} (hbuffer : newline ∉ buffer)
    (hlong : buffer.length > maxFrameBytes) (hsafe : ¬ FullLine (buffer ++ more)) :
    decode (buffer ++ more) = ⟨[], false⟩ := by
  by_cases hmem : newline ∈ more
  · obtain ⟨before, after, rfl, hbefore⟩ := List.eq_append_cons_of_mem hmem
    have hline : newline ∉ buffer ++ before := by
      rw [List.mem_append, not_or]
      exact ⟨hbuffer, hbefore⟩
    rw [← List.append_assoc] at hsafe ⊢
    apply decode_refused (splitLine_append hline after)
    intro haccepted
    apply hsafe
    apply fullLine_of_long hline haccepted
    rw [List.length_append]
    omega
  · have hall : newline ∉ buffer ++ more := by
      rw [List.mem_append, not_or]
      exact ⟨hbuffer, hmem⟩
    rw [decode_unfinished hall]
    cases buffer with
    | nil => cases hlong
    | cons byte buffer => rfl

theorem readAll_meaning (buffer : Bytes) (polls : List Poll)
    (hsafe : ¬ FullLine (buffer ++ received polls)) :
    (readAll buffer polls).meaning = decode (buffer ++ received polls) := by
  induction buffer, polls using readAll.induct with
  | case1 buffer polls line rest h frame hrefused =>
      have hnot : ¬ Accepted (dropReturn line) := fun ha => (accepted_iff _).mp ha hrefused
      rw [readAll_refused h hnot, decode_refused (splitLine_append_right h _) hnot]
      rfl
  | case2 buffer polls line rest h frame hkept ih =>
      have haccepted : Accepted (dropReturn line) := (accepted_iff _).mpr hkept
      obtain ⟨heq, hline⟩ := eq_of_splitLine h
      rw [readAll_line h haccepted, decode_line (splitLine_append_right h _) haccepted, ← ih]
      · rfl
      · intro hfull
        rw [heq, List.append_assoc, List.cons_append] at hsafe
        exact hsafe (.later hline haccepted hfull)
  | case3 buffer polls h hlong =>
      have hbuffer := not_mem_of_splitLine h
      rw [readAll_unfinished hbuffer, if_pos hlong, decode_of_long hbuffer hlong hsafe]
      rfl
  | case4 buffer h hshort =>
      have hbuffer := not_mem_of_splitLine h
      rw [readAll_unfinished hbuffer, if_neg hshort, received, List.flatMap_nil, List.append_nil,
        decode_unfinished hbuffer]
      cases buffer with
      | nil => rfl
      | cons byte buffer => rfl
  | case5 buffer h hshort polls ih =>
      rw [readAll_unfinished (not_mem_of_splitLine h), if_neg hshort]
      exact ih hsafe
  | case6 buffer h hshort chunk polls ih =>
      rw [readAll_unfinished (not_mem_of_splitLine h), if_neg hshort]
      rw [received, List.flatMap_cons, ← List.append_assoc] at hsafe ⊢
      exact ih hsafe

/-! ## At a full line two cuts differ -/

/-- Reads that bring no newline only fill the buffer: if it gets too long on the way, then it is
too long in the end. -/
theorem readAll_fill (fill polls : List Poll) (buffer : Bytes)
    (hline : newline ∉ buffer ++ received fill) :
    readAll buffer (fill ++ polls) = readAll (buffer ++ received fill) polls := by
  induction fill generalizing buffer with
  | nil => rw [received, List.flatMap_nil, List.append_nil, List.nil_append]
  | cons poll fill ih =>
      rw [received, List.flatMap_cons, ← List.append_assoc] at hline ⊢
      have hbuffer : newline ∉ buffer := fun hmem =>
        hline (List.mem_append_left _ (List.mem_append_left _ hmem))
      rw [List.cons_append, readAll_unfinished hbuffer]
      split
      · next hlong =>
          have hlonger : (buffer ++ poll.bytes ++ fill.flatMap Poll.bytes).length >
              maxFrameBytes := by
            rw [List.length_append, List.length_append]
            omega
          rw [readAll_unfinished hline, if_pos hlonger]
      · cases poll with
        | read chunk => exact ih _ hline
        | cancelled =>
            rw [Poll.bytes, List.append_nil] at hline ⊢
            exact ih _ hline

theorem readAll_overflow (fill polls : List Poll) (buffer : Bytes)
    (hline : newline ∉ buffer ++ received fill)
    (hlong : (buffer ++ received fill).length > maxFrameBytes) :
    readAll buffer (fill ++ polls) = ⟨[], .rejected .tooLarge⟩ := by
  rw [readAll_fill _ _ _ hline, readAll_unfinished hline, if_pos hlong]

/-- The finest cut. -/
def bytewise (stream : Bytes) : List Poll :=
  stream.map fun byte => .read ⟨[byte], List.cons_ne_nil _ _, Nat.le_of_ble_eq_true rfl⟩

theorem received_bytewise (stream : Bytes) : received (bytewise stream) = stream := by
  induction stream with
  | nil => rfl
  | cons byte stream ih =>
      rw [bytewise, List.map_cons, received, List.flatMap_cons]
      exact congrArg (byte :: ·) ih

theorem bytewise_append (stream more : Bytes) :
    bytewise (stream ++ more) = bytewise stream ++ bytewise more := List.map_append

theorem readAll_bytewise_long {line : Bytes} (hline : newline ∉ line)
    (hlong : line.length > maxFrameBytes) (rest : Bytes) :
    readAll [] (bytewise (line ++ rest)) = ⟨[], .rejected .tooLarge⟩ := by
  rw [bytewise_append]
  apply readAll_overflow
  · rw [List.nil_append, received_bytewise]
    exact hline
  · rw [List.nil_append, received_bytewise]
    exact hlong

theorem readAll_bytewise_line {line : Bytes} (hline : newline ∉ line)
    (hshort : line.length ≤ maxFrameBytes) (haccepted : Accepted (dropReturn line))
    (rest : Bytes) :
    (readAll [] (bytewise (line ++ newline :: rest))).frames =
      dropReturn line :: (readAll [] (bytewise rest)).frames := by
  have hfill : readAll [] (bytewise line ++ bytewise (newline :: rest)) =
      readAll line (bytewise (newline :: rest)) := by
    have hreceived : [] ++ received (bytewise line) = line := received_bytewise line
    rw [readAll_fill, hreceived]
    rw [hreceived]
    exact hline
  have hread : readAll line (bytewise (newline :: rest)) =
      readAll (line ++ [newline]) (bytewise rest) := by
    rw [bytewise, List.map_cons, readAll_unfinished hline, if_neg (Nat.not_lt.mpr hshort)]
    rfl
  rw [bytewise_append, hfill, hread, readAll_line (splitLine_append hline []) haccepted]

theorem readAll_bytewise_ne {stream : Bytes} (h : FullLine stream) :
    (readAll [] (bytewise stream)).frames ≠ (decode stream).frames := by
  induction h with
  | @here frame rest hframe hfull =>
      have hline : newline ∉ frame ++ [carriageReturn] := by
        rw [List.mem_append, not_or]
        exact ⟨hframe, by decide⟩
      have haccepted : Accepted (dropReturn (frame ++ [carriageReturn])) := by
        rw [dropReturn_append]
        refine ⟨fun hnil => ?_, Nat.le_of_eq hfull⟩
        rw [hnil] at hfull
        cases hfull
      have hlong : (frame ++ [carriageReturn]).length > maxFrameBytes := by
        rw [List.length_append, hfull]
        exact Nat.lt_succ_self _
      rw [List.append_cons, readAll_bytewise_long hline hlong,
        decode_line (splitLine_append hline rest) haccepted]
      exact (List.cons_ne_nil _ _).symm
  | @later line rest hline haccepted hfull ih =>
      rw [decode_line (splitLine_append hline rest) haccepted]
      by_cases hlong : line.length > maxFrameBytes
      · rw [readAll_bytewise_long hline hlong]
        exact (List.cons_ne_nil _ _).symm
      · rw [readAll_bytewise_line hline (Nat.not_lt.mp hlong) haccepted]
        exact fun heq => ih (List.cons.inj heq).2

/-! ## What the encoder sends -/

theorem dropReturn_json (frame : Encoded) : dropReturn frame.json = frame.json := by
  unfold dropReturn
  rw [frame.closed, if_neg (by decide)]

theorem FullLine.split {stream : Bytes} (h : FullLine stream) :
    ∃ line rest, splitLine stream = some (line, rest) ∧
      ((dropReturn line).length < line.length ∨ FullLine rest) := by
  cases h with
  | @here frame rest hframe hfull =>
      have hline : newline ∉ frame ++ [carriageReturn] := by
        rw [List.mem_append, not_or]
        exact ⟨hframe, by decide⟩
      refine ⟨frame ++ [carriageReturn], rest, ?_, .inl ?_⟩
      · rw [← splitLine_append hline rest, List.append_assoc]
        rfl
      · rw [dropReturn_append, List.length_append]
        exact Nat.lt_succ_self _
  | @later line rest hline haccepted hfull =>
      exact ⟨line, rest, splitLine_append hline rest, .inr hfull⟩

theorem splitLine_encoded (frame : Encoded) (rest : Bytes) :
    splitLine (frame.bytes ++ rest) = some (frame.json, rest) := by
  rw [Encoded.bytes, List.append_assoc]
  exact splitLine_append frame.oneLine rest

theorem not_fullLine_encoded (frames : List Encoded) :
    ¬ FullLine (frames.flatMap Encoded.bytes) := by
  induction frames with
  | nil =>
      intro h
      obtain ⟨line, rest, hsplit, -⟩ := h.split
      cases hsplit
  | cons frame frames ih =>
      intro h
      obtain ⟨line, rest, hsplit, hcase⟩ := h.split
      rw [List.flatMap_cons, splitLine_encoded] at hsplit
      cases hsplit
      cases hcase with
      | inl hlt =>
          rw [dropReturn_json] at hlt
          exact Nat.lt_irrefl _ hlt
      | inr hrest => exact ih hrest

theorem decode_encoded (frames : List Encoded)
    (hfits : ∀ frame ∈ frames, frame.json.length ≤ maxFrameBytes) :
    decode (frames.flatMap Encoded.bytes) = ⟨frames.map Encoded.json, true⟩ := by
  induction frames with
  | nil => rw [List.flatMap_nil, decode_unfinished List.not_mem_nil]; rfl
  | cons frame frames ih =>
      have haccepted : Accepted (dropReturn frame.json) := by
        rw [dropReturn_json]
        refine ⟨fun hnil => ?_, hfits frame List.mem_cons_self⟩
        have hlast := frame.closed
        rw [hnil] at hlast
        cases hlast
      rw [List.flatMap_cons, decode_line (splitLine_encoded frame _) haccepted, dropReturn_json,
        ih fun other hmem => hfits other (List.mem_cons_of_mem _ hmem)]
      rfl

/-! ## Cuts and cancellations -/

theorem readAll_cuts_iff (stream : Bytes) :
    ((∀ polls, received polls = stream → (readAll [] polls).meaning = decode stream) ↔
      ¬ FullLine stream) ∧
    ∀ frames : List Encoded, (∀ frame ∈ frames, frame.json.length ≤ maxFrameBytes) →
      stream = frames.flatMap Encoded.bytes → ∀ polls, received polls = stream →
      (readAll [] polls).meaning = ⟨frames.map Encoded.json, true⟩ := by
  refine ⟨⟨fun hall hfull => ?_, fun hsafe polls hreceived => ?_⟩, ?_⟩
  · have hsame := hall (bytewise stream) (received_bytewise stream)
    exact readAll_bytewise_ne hfull (congrArg Meaning.frames hsame)
  · rw [← hreceived] at hsafe ⊢
    exact readAll_meaning [] polls hsafe
  · intro frames hfits heq polls hreceived
    rw [← decode_encoded frames hfits, ← heq, ← hreceived]
    apply readAll_meaning
    rw [List.nil_append, hreceived, heq]
    exact not_fullLine_encoded frames

theorem received_replicate (count : Nat) (chunk : Chunk) (byte : UInt8) (size : Nat)
    (h : chunk.bytes = List.replicate size byte) :
    received (List.replicate count (.read chunk)) = List.replicate (count * size) byte := by
  induction count with
  | zero => rw [Nat.zero_mul]; rfl
  | succ count ih =>
      rw [List.replicate_succ, received, List.flatMap_cons, Poll.bytes, h, Nat.succ_mul,
        Nat.add_comm, List.replicate_add]
      exact congrArg _ ih

/-- Thirty-two reads of 8192 letters. -/
theorem exists_full_fill :
    ∃ fill, newline ∉ received fill ∧ (received fill).length = maxFrameBytes := by
  let chunk : Chunk :=
    ⟨List.replicate 8192 97, List.cons_ne_nil _ _, Nat.le_of_eq List.length_replicate⟩
  refine ⟨List.replicate 32 (.read chunk), ?_, ?_⟩
  · rw [received_replicate 32 chunk 97 8192 rfl]
    exact fun hmem => absurd (List.eq_of_mem_replicate hmem) (by decide)
  · rw [received_replicate 32 chunk 97 8192 rfl, List.length_replicate]
    rfl

section Fill

variable {fill : List Poll}

/-- The line ending in one read: the frame is taken. -/
theorem readAll_fill_whole (hline : newline ∉ received fill)
    (hfull : (received fill).length = maxFrameBytes) :
    (readAll [] (fill ++
      [.read ⟨[carriageReturn, newline], List.cons_ne_nil _ _, by decide⟩])).frames =
        [received fill] := by
  have haccepted : Accepted (dropReturn (received fill ++ [carriageReturn])) := by
    rw [dropReturn_append]
    refine ⟨fun hnil => ?_, Nat.le_of_eq hfull⟩
    rw [hnil] at hfull
    cases hfull
  have hreturn : newline ∉ received fill ++ [carriageReturn] := by
    rw [List.mem_append, not_or]
    exact ⟨hline, by decide⟩
  rw [readAll_fill _ _ [] hline, List.nil_append, readAll_unfinished hline,
    if_neg (Nat.not_lt.mpr (Nat.le_of_eq hfull))]
  dsimp only
  rw [List.append_cons, readAll_line (splitLine_append hreturn []) haccepted, dropReturn_append,
    readAll_unfinished List.not_mem_nil]
  rfl

/-- The line ending in two reads: the reader gives up between them. -/
theorem readAll_fill_cut (hline : newline ∉ received fill)
    (hfull : (received fill).length = maxFrameBytes) :
    readAll [] (fill ++
      [.read ⟨[carriageReturn], List.cons_ne_nil _ _, by decide⟩,
        .read ⟨[newline], List.cons_ne_nil _ _, by decide⟩]) =
      ⟨[], .rejected .tooLarge⟩ := by
  rw [List.append_cons]
  apply readAll_overflow
  · rw [received, List.flatMap_append, List.nil_append, List.mem_append, not_or]
    exact ⟨hline, by decide⟩
  · rw [received, List.flatMap_append, List.nil_append, List.length_append]
    exact Nat.lt_of_lt_of_eq (Nat.lt_succ_self _) (congrArg (· + 1) hfull.symm)

end Fill

theorem cuts_of_full_frame_differ :
    ∃ whole cut : List Poll, received whole = received cut ∧
      (readAll [] whole).meaning ≠ (readAll [] cut).meaning := by
  obtain ⟨fill, hline, hfull⟩ := exists_full_fill
  refine ⟨fill ++ [.read ⟨[carriageReturn, newline], List.cons_ne_nil _ _, by decide⟩],
    fill ++ [.read ⟨[carriageReturn], List.cons_ne_nil _ _, by decide⟩,
      .read ⟨[newline], List.cons_ne_nil _ _, by decide⟩], ?_, fun hsame => ?_⟩
  · rw [received, received, List.flatMap_append, List.flatMap_append]
    rfl
  · have hframes := congrArg Meaning.frames hsame
    rw [Reading.meaning, readAll_fill_whole hline hfull, Reading.meaning,
      readAll_fill_cut hline hfull] at hframes
    cases hframes

end Zos.Termux.Frames
