import Zos.Docker.Progress

/-!
# The progress stream and its chunks

While nothing is settled, the pending line and the bytes in the decoder stand for everything that
was read: whatever comes next, the first failure among the lines of the whole response is the
first failure among the lines of the pending text and the rest (`Reader.Holds`). So the response
is settled once, with the first line at which `parseLine` throws, wherever the chunks were cut.

What a line is refused for is another matter: `null` is JSON and makes `parseLine` throw, and an
empty `errorDetail.message` hides an `error`.
-/

namespace Zos.Docker.Progress

open Zos.Lib

/-! ## Lines -/

theorem splitLines_cons {c : Char} {text : List Char} (hlf : c ≠ '\n')
    (hcrlf : ∀ rest, c = '\r' → text = '\n' :: rest → False) :
    splitLines (c :: text) = (splitLines text).modifyHead (c :: ·) := by
  rw [splitLines]
  · exact hlf
  · exact hcrlf

theorem splitLines_ne_nil (text : List Char) : splitLines text ≠ [] := by
  induction text using splitLines.induct with
  | case1 => exact List.cons_ne_nil _ _
  | case2 text _ => exact List.cons_ne_nil _ _
  | case3 text _ => exact List.cons_ne_nil _ _
  | case4 c text hlf hcrlf ih =>
      rw [splitLines_cons hlf hcrlf]
      simpa using ih

/-- A text that is one line. -/
theorem eq_of_splitLines {text line : List Char} (h : splitLines text = [line]) : line = text := by
  induction text using splitLines.induct generalizing line with
  | case1 => exact (List.singleton_inj.mp h).symm
  | case2 text _ =>
      rw [splitLines] at h
      exact absurd (List.cons.inj h).2 (splitLines_ne_nil text)
  | case3 text _ =>
      rw [splitLines] at h
      exact absurd (List.cons.inj h).2 (splitLines_ne_nil text)
  | case4 c text hlf hcrlf ih =>
      rw [splitLines_cons hlf hcrlf] at h
      cases hlines : splitLines text with
      | nil => exact absurd hlines (splitLines_ne_nil text)
      | cons first rest =>
          rw [hlines, List.modifyHead_cons] at h
          obtain ⟨rfl, rfl⟩ := List.cons.inj h
          rw [ih hlines]

/-- The last line goes on with what comes after it. -/
theorem splitLines_append (text more : List Char) :
    splitLines (text ++ more) = (splitLines text).dropLast ++
      splitLines ((splitLines text).getLast?.getD [] ++ more) := by
  induction text using splitLines.induct with
  | case1 => rfl
  | case2 text ih =>
      rw [List.cons_append, splitLines, splitLines, ih, List.dropLast_cons_of_ne_nil
        (splitLines_ne_nil text), List.getLast?_cons_of_ne_nil (splitLines_ne_nil text)]
      rfl
  | case3 text ih =>
      rw [List.cons_append, List.cons_append, splitLines, splitLines, ih,
        List.dropLast_cons_of_ne_nil (splitLines_ne_nil text),
        List.getLast?_cons_of_ne_nil (splitLines_ne_nil text)]
      rfl
  | case4 c text hlf hcrlf ih =>
      rw [splitLines_cons hlf hcrlf]
      cases hlines : splitLines text with
      | nil => exact absurd hlines (splitLines_ne_nil text)
      | cons first rest =>
          rw [hlines] at ih
          cases rest with
          | nil =>
              rw [eq_of_splitLines hlines]
              rfl
          | cons second rest =>
              -- A second line needs a terminator, so the text does not end here.
              obtain ⟨d, text, rfl⟩ : ∃ d rest, text = d :: rest := by
                cases text with
                | nil => cases hlines
                | cons d text => exact ⟨d, text, rfl⟩
              have hcrlf' : ∀ rest, c = '\r' → d :: text ++ more = '\n' :: rest → False := by
                intro rest hc heq
                exact hcrlf text hc (by rw [(List.cons.inj heq).1])
              rw [List.cons_append, splitLines_cons hlf hcrlf', ih]
              rfl

/-! ## What stands for what was read -/

section

variable {parse : Line → Option Json}

/-- The first line at which `parseLine` throws. -/
def firstFailure (parse : Line → Option Json) (text : List Char) : Option Failure :=
  (splitLines text).findSome? (parseLine parse)

/-- Some bytes were read and nothing is settled. -/
structure Reader.Holds (parse : Line → Option Json) (seen : List Nat) (r : Reader) : Prop where
  ready : r.decoder.Ready
  unsettled : r.settled = false
  silent : r.outcomes = []
  rest : ∀ more, firstFailure parse (Utf8.decode (seen ++ more)) =
    firstFailure parse (r.pending ++ Utf8.decode (r.decoder.buffered ++ more))

structure Reader.Settled (outcome : Outcome) (r : Reader) : Prop where
  settled : r.settled = true
  outcomes : r.outcomes = [outcome]

/-- What the reader knows of a response of which it has read some bytes. -/
def Reader.Knows (parse : Line → Option Json) (seen : List Nat) (r : Reader) : Prop :=
  r.Holds parse seen ∨ ∃ failure, r.Settled (.rejected failure) ∧
    ∀ more, firstFailure parse (Utf8.decode (seen ++ more)) = some failure

theorem Reader.holds_initial : Reader.initial.Holds parse [] :=
  ⟨.inl rfl, rfl, rfl, fun _ => rfl⟩

theorem Reader.Settled.on {outcome : Outcome} {r : Reader} (h : r.Settled outcome)
    (event : Event) : r.on parse event = r := by
  cases event with
  | data chunk => exact if_pos h.settled
  | finish => exact if_pos h.settled
  | error => exact if_pos h.settled

theorem Reader.Settled.run {outcome : Outcome} {r : Reader} (h : r.Settled outcome)
    (events : List Event) : events.foldl (Reader.on parse) r = r := by
  induction events with
  | nil => rfl
  | cons event events ih => rw [List.foldl_cons, h.on, ih]

/-- The lines that end in a chunk are read, the last one waits. -/
theorem firstFailure_consume (pending text more : List Char) :
    firstFailure parse (pending ++ text ++ more) = (consume parse pending text false).1.or
      (firstFailure parse ((consume parse pending text false).2 ++ more)) := by
  rw [firstFailure, splitLines_append, List.findSome?_append]
  simp [consume, firstFailure]

theorem consume_complete (pending text : List Char) :
    (consume parse pending text true).1 = firstFailure parse (pending ++ text) := by
  simp [consume, firstFailure, blank]

theorem Reader.Holds.data {seen : List Nat} {r : Reader} (h : r.Holds parse seen)
    (chunk : List Nat) : (r.on parse (.data chunk)).Knows parse (seen ++ chunk) := by
  obtain ⟨hready, hdecode⟩ := StringDecoder.write_continues h.ready chunk
  have hsplit (more : List Nat) : firstFailure parse (Utf8.decode (seen ++ chunk ++ more)) =
      (consume parse r.pending (r.decoder.write chunk).1 false).1.or
        (firstFailure parse ((consume parse r.pending (r.decoder.write chunk).1 false).2 ++
          Utf8.decode ((r.decoder.write chunk).2.buffered ++ more))) := by
    rw [← firstFailure_consume, List.append_assoc seen, h.rest, ← List.append_assoc, ← hdecode,
      List.append_assoc]
  rw [Reader.on, if_neg (by simp [h.unsettled])]
  dsimp only
  split
  · next failure hfailure =>
      refine .inr ⟨failure, ⟨?_, ?_⟩, ?_⟩
      · simp [Reader.fail, h.unsettled]
      · simp [Reader.fail, h.unsettled, h.silent]
      · intro more
        rw [hsplit, hfailure, Option.some_or]
  · next hnone =>
      refine .inl ⟨hready, h.unsettled, h.silent, fun more => ?_⟩
      rw [hsplit, hnone, Option.none_or]

theorem Reader.Knows.data {seen : List Nat} {r : Reader} (h : r.Knows parse seen)
    (chunk : List Nat) : (r.on parse (.data chunk)).Knows parse (seen ++ chunk) := by
  rcases h with h | ⟨failure, hsettled, hfailure⟩
  · exact h.data chunk
  · rw [hsettled.on]
    exact .inr ⟨failure, hsettled, fun more => by rw [List.append_assoc, hfailure]⟩

theorem Reader.Knows.run {seen : List Nat} {r : Reader} (h : r.Knows parse seen)
    (chunks : List (List Nat)) :
    ((chunks.map Event.data).foldl (Reader.on parse) r).Knows parse (seen ++ chunks.flatten) := by
  induction chunks generalizing seen r with
  | nil => simpa using h
  | cons chunk chunks ih =>
      have hrest := ih (h.data chunk)
      rwa [List.append_assoc] at hrest

/-- At the end the first failure decides. -/
theorem Reader.Knows.finish {seen : List Nat} {r : Reader} (h : r.Knows parse seen) :
    (r.on parse .finish).Settled (.ofFailure (firstFailure parse (Utf8.decode seen))) := by
  rcases h with h | ⟨failure, hsettled, hfailure⟩
  · have hwhole := h.rest []
    rw [List.append_nil, List.append_nil] at hwhole
    rw [Reader.on, if_neg (by simp [h.unsettled])]
    dsimp only
    rw [consume_complete, StringDecoder.finish, ← hwhole]
    cases firstFailure parse (Utf8.decode seen) with
    | none => exact ⟨rfl, by simp [h.silent, Outcome.ofFailure]⟩
    | some failure =>
        exact ⟨by simp [Reader.fail, h.unsettled],
          by simp [Reader.fail, h.unsettled, h.silent, Outcome.ofFailure]⟩
  · have hwhole := hfailure []
    rw [List.append_nil] at hwhole
    rw [hsettled.on, hwhole]
    exact hsettled

/-- Settled once, with the first failure of the whole text. -/
theorem requestNdjson_eq (chunks : List (List Nat)) (later : List Event) :
    requestNdjson parse chunks later =
      [.ofFailure (firstFailure parse (Utf8.decode chunks.flatten))] := by
  have hread := Reader.Knows.run (.inl (@Reader.holds_initial parse)) chunks
  rw [List.nil_append] at hread
  rw [requestNdjson, List.foldl_append, List.foldl_cons, hread.finish.run, hread.finish.outcomes]

/-! ## What a line is refused for -/

theorem parseLine_null {line : Line} (h : IsNull parse line) :
    parseLine parse line = some .typeError ∧ refusal parse line = none := by
  rw [parseLine, refusal, if_neg (by simp [h.1]), if_neg (by simp [h.1]), h.2]
  exact ⟨rfl, rfl⟩

theorem parseLine_masked {line : Line} (h : Masked parse line) : parseLine parse line = none := by
  obtain ⟨hblank, progress, text, hparse, hdetail, hnull, hfalsy⟩ := h
  have hmessage : message progress = some text := by
    rw [message, hdetail]
    cases text <;> first | rfl | exact absurd rfl hnull
  rw [parseLine, if_neg (by simp [hblank]), hparse]
  split
  · next heq => cases heq
  · next heq =>
      cases heq
      cases hdetail
  · next heq =>
      cases heq
      rw [hmessage, Option.filter_some_neg (by simp [hfalsy])]
      rfl

/-- Any other line is refused for what it should be. -/
theorem parseLine_eq {line : Line} (hnull : ¬ IsNull parse line) (hmasked : ¬ Masked parse line) :
    parseLine parse line = refusal parse line := by
  rw [parseLine, refusal]
  split
  · rfl
  · next hblank =>
      split
      · next hparse => rw [hparse]
      · next hparse => exact absurd ⟨by simpa using hblank, hparse⟩ hnull
      · next progress _ hparse =>
          rw [hparse]
          refine congrArg (Option.map Failure.request) ?_
          rw [message]
          split
          · next hnone => rw [hnone, Option.filter_none, Option.none_or]
          · next hnone => rw [hnone]; rfl
          · next text hother hdetail =>
              have htruthy : text.truthy = true := by
                by_contra hfalsy
                exact hmasked ⟨by simpa using hblank, progress, text, hparse, hdetail,
                  hother, by simpa using hfalsy⟩
              rw [hdetail, Option.filter_some_pos htruthy, Option.some_or]

theorem refusal_ne_typeError (line : Line) : refusal parse line ≠ some .typeError := by
  intro h
  rw [refusal] at h
  split at h
  · cases h
  · split at h
    · cases h
    · obtain ⟨text, _, htext⟩ := Option.map_eq_some_iff.mp h
      cases htext

theorem Outcome.ofFailure_inj {a b : Option Failure} (h : Outcome.ofFailure a = .ofFailure b) :
    a = b := by
  cases a <;> cases b <;> simp_all [Outcome.ofFailure]

theorem echoed_iff {failure : Failure} (hfailure : failure ≠ .typeError) (lines : List Line) :
    lines.findSome? (parseLine parse) = some failure ↔ Echoed parse failure lines := by
  induction lines with
  | nil => exact iff_of_false nofun id
  | cons line lines ih =>
      rw [List.findSome?_cons, Echoed]
      by_cases hnull : IsNull parse line
      · rw [(parseLine_null hnull).1]
        exact iff_of_false (fun h => hfailure (Option.some.inj h).symm) fun h => h.1 hnull
      by_cases hmasked : Masked parse line
      · simp [parseLine_masked hmasked, hnull, hmasked, ih]
      · rw [parseLine_eq hnull hmasked]
        cases refusal parse line <;> simp [hnull, hmasked, ih]

theorem unmasked_iff (lines : List Line) :
    lines.findSome? (parseLine parse) = lines.findSome? (refusal parse) ↔
      Unmasked parse lines := by
  induction lines with
  | nil => exact iff_of_true rfl trivial
  | cons line lines ih =>
      rw [List.findSome?_cons, List.findSome?_cons, Unmasked]
      by_cases hnull : IsNull parse line
      · rw [(parseLine_null hnull).1, (parseLine_null hnull).2]
        refine iff_of_false (fun heq => ?_) fun h => h.1 hnull
        obtain ⟨other, _, hother⟩ := List.exists_of_findSome?_eq_some heq.symm
        exact refusal_ne_typeError other hother
      cases hrefusal : refusal parse line with
      | none =>
          have hcode : parseLine parse line = none := by
            by_cases hmasked : Masked parse line
            · exact parseLine_masked hmasked
            · rw [parseLine_eq hnull hmasked, hrefusal]
          simp [hcode, hnull, ih]
      | some failure =>
          by_cases hmasked : Masked parse line
          · have hfailure : failure ≠ .typeError := fun h =>
              refusal_ne_typeError line (hrefusal.trans (congrArg some h))
            simp [parseLine_masked hmasked, hmasked, echoed_iff hfailure]
          · simp [parseLine_eq hnull hmasked, hrefusal, hmasked]

end

/-- The stream settles as it should exactly when no `null` comes before the first error and no
empty message hides that error. -/
theorem settles_iff (parse : Line → Option Json) (chunks : List (List Nat))
    (later : List Event) :
    Settles parse chunks later ↔ Unmasked parse (splitLines (Utf8.decode chunks.flatten)) := by
  rw [← unmasked_iff]
  constructor
  · intro h
    have houtcome := h.outcome
    rw [requestNdjson_eq] at houtcome
    exact Outcome.ofFailure_inj (List.singleton_inj.mp houtcome)
  · intro h
    refine ⟨?_, ?_, ?_⟩
    · rw [requestNdjson_eq]
      rfl
    · rw [requestNdjson_eq, requestNdjson_eq, List.flatten_singleton]
    · rw [requestNdjson_eq, firstFailure, h]
      rfl

/-- A response of one line. -/
theorem requestNdjson_line {parse : Line → Option Json} {line : Line}
    (hline : splitLines line = [line]) :
    requestNdjson parse [Utf8.encode line] [] = [.ofFailure (parseLine parse line)] := by
  rw [requestNdjson_eq, List.flatten_singleton, Utf8.decode_encode, firstFailure, hline,
    List.findSome?_singleton]

def nullLine : Line := ['n', 'u', 'l', 'l']

def maskedLine : Line :=
  "\x7b\"errorDetail\":\x7b\"message\":\"\"\x7d,\"error\":\"denied\"\x7d".toList

def masked : Json :=
  .object [("errorDetail", .object [("message", .string "")]), ("error", .string "denied")]

/-- What `JSON.parse` makes of these two lines. -/
def parseSample (line : Line) : Option Json :=
  if line = nullLine then some .null else if line = maskedLine then some masked else none

/-- `null` has no error in it and is rejected; an empty message hides an error. -/
theorem null_rejected_error_hidden :
    (requestNdjson parseSample [Utf8.encode nullLine] [] = [.rejected .typeError] ∧
        ¬Settles parseSample [Utf8.encode nullLine] []) ∧
      requestNdjson parseSample [Utf8.encode maskedLine] [] = [.resolved] ∧
        ¬Settles parseSample [Utf8.encode maskedLine] [] := by
  have hnull : parseSample nullLine = some .null := if_pos rfl
  have hmasked : parseSample maskedLine = some masked :=
    (if_neg (by decide +kernel)).trans (if_pos rfl)
  generalize parseSample = parse at hnull hmasked
  have hnullLine : parseLine parse nullLine = some .typeError := by
    rw [parseLine, if_neg (by decide), hnull]
  have hmaskedLine : parseLine parse maskedLine = none := by
    rw [parseLine, if_neg (by decide +kernel), hmasked]
    rfl
  have hrejected : requestNdjson parse [Utf8.encode nullLine] [] = [.rejected .typeError] := by
    rw [requestNdjson_line (by decide), hnullLine]
    rfl
  have hresolved : requestNdjson parse [Utf8.encode maskedLine] [] = [.resolved] := by
    rw [requestNdjson_line (by decide +kernel), hmaskedLine]
    rfl
  refine ⟨⟨hrejected, ?_⟩, hresolved, ?_⟩
  · intro h
    have houtcome := hrejected.symm.trans h.outcome
    rw [expected, List.flatten_singleton, Utf8.decode_encode,
      show splitLines nullLine = [nullLine] by decide, List.findSome?_singleton, refusal,
      if_neg (by decide), hnull] at houtcome
    cases houtcome
  · intro h
    have houtcome := hresolved.symm.trans h.outcome
    rw [expected, List.flatten_singleton, Utf8.decode_encode,
      show splitLines maskedLine = [maskedLine] by decide +kernel, List.findSome?_singleton,
      refusal, if_neg (by decide +kernel), hmasked] at houtcome
    cases houtcome

end Zos.Docker.Progress
