import Mathlib.Data.List.Perm.Basic
import Zos.Lib.Reach
import Zos.Photostaff.Worker

/-!
# One bad photo and the rest of the scan

`process_entry` puts every non-retryable error of a media file or its sidecar down to the entry,
with one exception: the error of opening the sidecar is handed on and ends the job, with whatever
else is running. `processEntry_of_bad` is that case analysis; the runs of `process_entries` only
add that entries are neither lost nor done twice.
-/

namespace Zos.Photostaff.Worker

open Zos.Lib (run run_append run_keeps)

/-- The calls `process_entry` makes as long as none fails, each with whether it is about the
entry's own file or sidecar. -/
def Attempt.calls (entry : Attempt) : List (Bool × Except PhotostaffError Unit) :=
  [(true, entry.openSource), (true, entry.openSidecar.getD (.ok ()))] ++
    if entry.unchanged then []
    else [(false, entry.cacheAvailableBytes), (false, entry.reserveSpace),
      (false, entry.cacheLock), (true, entry.processMedia), (true, entry.verifySources),
      (false, entry.publishDerivatives), (true, entry.verifyPublished)]

def firstFailure : List (Bool × Except PhotostaffError Unit) → Option (Bool × PhotostaffError)
  | [] => none
  | (own, .error error) :: _ => some (own, error)
  | (_, .ok ()) :: calls => firstFailure calls

/-- The entry's own file or sidecar raises a non-retryable error. -/
def Attempt.bad (entry : Attempt) : Bool :=
  (firstFailure entry.calls).any fun (own, error) => own ∧ ¬ error.retryable

/-- The sidecar cannot be opened, for a reason that will not go away. -/
def Attempt.sidecarBad (entry : Attempt) : Bool :=
  match entry.openSource, entry.openSidecar with
  | .ok (), some (.error error) => ¬ error.retryable
  | _, _ => false

/-- What is to hold after any number of moves: no bad entry has ended the job, the bad ones that
are done have failed, and when no move is left every entry is done. -/
structure GoesOn (concurrency : Nat) (entries : List Attempt) (moves : List Move) (s : Scan) :
    Prop where
  notEnded : ∀ entry error, s.ended = some (entry, error) → ¬ entry.bad
  failed : ∀ entry status, (entry, status) ∈ s.done → entry.bad → status = .failed
  bounded : moves.length ≤ 2 * entries.length
  processed : s.ended = none → (∀ move, step concurrency s move = none) →
    (s.done.map Prod.fst).Perm entries

variable {concurrency : Nat} {entry : Attempt} {entries : List Attempt} {s s' : Scan}

/-! ## One entry -/

theorem processEntry_of_sidecarBad (h : entry.sidecarBad) :
    entry.bad ∧ ∃ error, processEntry entry = .error error := by
  unfold Attempt.sidecarBad at h
  split at h
  case h_1 error hopen hanswer =>
    refine ⟨?_, error, ?_⟩
    · simpa [Attempt.bad, Attempt.calls, firstFailure, hopen, hanswer] using h
    · simp [processEntry, hopen, hanswer, bind, Except.bind]
  case h_2 => cases h

theorem publish_of_failure {error : PhotostaffError}
    (h : firstFailure [(false, entry.cacheLock), (true, entry.processMedia),
      (true, entry.verifySources), (false, entry.publishDerivatives),
      (true, entry.verifyPublished)] = some (true, error)) :
    entry.publish = .error error := by
  unfold Attempt.publish
  cases hlock : entry.cacheLock with
  | error => simp [firstFailure, hlock] at h
  | ok =>
  cases hprocess : entry.processMedia with
  | error => simpa [firstFailure, hlock, hprocess, bind, Except.bind] using h
  | ok =>
  cases hverify : entry.verifySources with
  | error => simpa [firstFailure, hlock, hprocess, hverify, bind, Except.bind] using h
  | ok =>
  cases hpublish : entry.publishDerivatives with
  | error => simp [firstFailure, hlock, hprocess, hverify, hpublish] at h
  | ok =>
  cases hagain : entry.verifyPublished with
  | error =>
      simpa [firstFailure, hlock, hprocess, hverify, hpublish, hagain, bind, Except.bind] using h
  | ok => simp [firstFailure, hlock, hprocess, hverify, hpublish, hagain] at h

theorem processEntry_of_bad (h : entry.bad) (hsidecar : ¬ entry.sidecarBad) :
    processEntry entry = .ok .failed := by
  obtain ⟨error, hfailure, hfinal⟩ : ∃ error, firstFailure entry.calls = some (true, error) ∧
      error.retryable = false := by
    obtain ⟨⟨own, error⟩, hfailure, hbad⟩ := (Option.any_eq_true ..).mp h
    obtain ⟨rfl, hfinal⟩ : own = true ∧ error.retryable = false := by simpa using hbad
    exact ⟨error, hfailure, hfinal⟩
  unfold Attempt.calls at hfailure
  unfold processEntry
  cases hopen : entry.openSource with
  | error raised =>
      obtain rfl : raised = error := by simpa [firstFailure, hopen] using hfailure
      simp [hfinal]
  | ok =>
  cases hanswer : entry.openSidecar.getD (.ok ()) with
  | error raised =>
      obtain rfl : raised = error := by simpa [firstFailure, hopen, hanswer] using hfailure
      refine absurd ?_ hsidecar
      cases hopened : entry.openSidecar with
      | none => simp [hopened] at hanswer
      | some answer =>
          obtain rfl : answer = .error raised := by simpa [hopened] using hanswer
          simp [Attempt.sidecarBad, hopen, hopened, hfinal]
  | ok =>
  cases hunchanged : entry.unchanged with
  | true => simp [firstFailure, hopen, hanswer, hunchanged] at hfailure
  | false =>
  cases havailable : entry.cacheAvailableBytes with
  | error => simp [firstFailure, hopen, hanswer, hunchanged, havailable] at hfailure
  | ok =>
  cases hreserve : entry.reserveSpace with
  | error => simp [firstFailure, hopen, hanswer, hunchanged, havailable, hreserve] at hfailure
  | ok =>
      have hpublish : entry.publish = .error error := by
        refine publish_of_failure ?_
        simpa only [firstFailure, hopen, hanswer, hunchanged, havailable, hreserve,
          Bool.false_eq_true, if_false, List.cons_append, List.nil_append] using hfailure
      simp [hpublish, hfinal, bind, Except.bind, pure, Except.pure]

/-! ## Moves -/

/-- Where the entries are, and what `processEntry` said of those that have been through it. -/
structure Sound (entries : List Attempt) (s : Scan) : Prop where
  ended : ∀ entry error, s.ended = some (entry, error) →
    entry ∈ entries ∧ processEntry entry = .error error
  done : ∀ entry status, (entry, status) ∈ s.done → entry ∈ entries ∧
    processEntry entry = .ok status
  kept : s.ended = none → (s.done.map Prod.fst ++ (s.running ++ s.pending)).Perm entries

def weight (s : Scan) : Nat := s.running.length + 2 * s.pending.length

theorem eraseIdx_perm {α : Type} {l : List α} {i : Nat} {x : α} (h : l[i]? = some x) :
    (x :: l.eraseIdx i).Perm l := by
  obtain ⟨hi, rfl⟩ := List.getElem?_eq_some_iff.mp h
  exact List.getElem_cons_eraseIdx_perm hi

theorem step_claim {i : Nat} (h : step concurrency s (.claim i) = some s') :
    s.ended = none ∧ ∃ entry, s.pending[i]? = some entry ∧
      s' = { s with pending := s.pending.eraseIdx i, running := s.running ++ [entry] } := by
  unfold step at h
  dsimp only at h
  split at h
  case isFalse => cases h
  case isTrue hmay =>
    obtain ⟨entry, hentry, rfl⟩ := Option.map_eq_some_iff.mp h
    exact ⟨Option.isNone_iff_eq_none.mp hmay.1, entry, hentry, rfl⟩

theorem step_complete {i : Nat} (h : step concurrency s (.complete i) = some s') :
    s.ended = none ∧ ∃ entry, s.running[i]? = some entry ∧
      ((∃ status, processEntry entry = .ok status ∧ s' = { s with
        running := s.running.eraseIdx i, done := s.done ++ [(entry, status)] }) ∨
      ∃ error, processEntry entry = .error error ∧
        s' = { s with running := [], ended := some (entry, error) }) := by
  unfold step at h
  dsimp only at h
  split at h
  case isFalse => cases h
  case isTrue hmay =>
    obtain ⟨entry, hentry, rfl⟩ := Option.map_eq_some_iff.mp h
    refine ⟨Option.isNone_iff_eq_none.mp hmay.1, entry, hentry, ?_⟩
    cases hprocess : processEntry entry with
    | ok status => exact .inl ⟨status, rfl, by simp⟩
    | error error => exact .inr ⟨error, rfl, by simp⟩

theorem step_sound {move : Move} (hs : Sound entries s)
    (h : step concurrency s move = some s') : Sound entries s' := by
  cases move with
  | claim i =>
      obtain ⟨hnone, entry, hentry, rfl⟩ := step_claim h
      refine ⟨hs.ended, hs.done, fun _ => ?_⟩
      refine .trans (List.Perm.append_left _ ?_) (hs.kept hnone)
      simpa using List.Perm.append_left s.running (eraseIdx_perm hentry)
  | complete i =>
      obtain ⟨hnone, entry, hentry, hresult⟩ := step_complete h
      have hmem : entry ∈ entries := (hs.kept hnone).subset (by
        simp [List.mem_of_getElem? hentry])
      obtain ⟨status, hprocess, rfl⟩ | ⟨error, hprocess, rfl⟩ := hresult
      · refine ⟨fun _ _ hended => (nomatch hnone.symm.trans hended), ?_, fun _ => ?_⟩
        · intro other otherStatus hother
          obtain hold | hnew := List.mem_append.mp hother
          · exact hs.done other otherStatus hold
          · obtain ⟨rfl, rfl⟩ : other = entry ∧ otherStatus = status := by simpa using hnew
            exact ⟨hmem, hprocess⟩
        · refine .trans ?_ (hs.kept hnone)
          simpa using List.Perm.append_left (s.done.map Prod.fst)
            (List.Perm.append_right s.pending (eraseIdx_perm hentry))
      · refine ⟨fun other otherError hended => ?_, hs.done, nofun⟩
        obtain ⟨rfl, rfl⟩ : entry = other ∧ error = otherError := by simpa using hended
        exact ⟨hmem, hprocess⟩

theorem step_weight {move : Move} (h : step concurrency s move = some s') :
    weight s' < weight s := by
  cases move with
  | claim i =>
      obtain ⟨-, entry, hentry, rfl⟩ := step_claim h
      have hlength := (eraseIdx_perm hentry).length_eq
      simp only [weight, List.length_append, List.length_cons, List.length_nil] at hlength ⊢
      omega
  | complete i =>
      obtain ⟨-, entry, hentry, hresult⟩ := step_complete h
      have hlength := (eraseIdx_perm hentry).length_eq
      rw [List.length_cons] at hlength
      obtain ⟨status, -, rfl⟩ | ⟨error, -, rfl⟩ := hresult
      · simp only [weight]
        omega
      · simp only [weight, List.length_nil]
        omega

/-- As long as an entry is left there is a move. -/
theorem step_possible (hpositive : 0 < concurrency) (hended : s.ended = none)
    (h : ∀ move, step concurrency s move = none) : s.running = [] ∧ s.pending = [] := by
  have hclaim := h (.claim 0)
  have hcomplete := h (.complete 0)
  obtain ⟨pending, running, done, ended⟩ := s
  obtain rfl : ended = none := hended
  cases running with
  | nil =>
      cases pending with
      | nil => exact ⟨rfl, rfl⟩
      | cons => simp [step, hpositive] at hclaim
  | cons entry running =>
      cases pending with
      | nil => simp [step] at hcomplete
      | cons next pending =>
          simp only [step, Option.isNone_none, List.length_cons, true_and] at hclaim hcomplete
          split at hclaim
          · simp at hclaim
          · simp [Nat.le_of_not_lt ‹_›] at hcomplete

/-! ## Runs -/

theorem run_weight {moves : List Move} (h : run (step concurrency) s moves = some s') :
    moves.length + weight s' ≤ weight s := by
  induction moves generalizing s with
  | nil =>
      obtain rfl : s = s' := Option.some.inj h
      simp
  | cons move moves ih =>
      obtain ⟨next, hstep, hrest⟩ := Option.bind_eq_some_iff.mp h
      have hlast := ih hrest
      have hfirst := step_weight hstep
      rw [List.length_cons]
      omega

theorem run_sound {moves : List Move}
    (h : run (step concurrency) (start entries) moves = some s) : Sound entries s :=
  run_keeps (Sound entries)
    ⟨fun _ _ hended => (by cases hended), fun _ _ hdone => absurd hdone List.not_mem_nil,
      fun _ => by simp [start]⟩
    (fun _ _ _ _ hs hstep => step_sound hs hstep) h

/-- Claiming goes on until an entry may come to its end; what runs already stays in front. -/
theorem run_fill (concurrency : Nat) (s : Scan) (hended : s.ended = none) : ∃ moves full,
    run (step concurrency) s moves = some full ∧ full.ended = none ∧
      (concurrency ≤ full.running.length ∨ full.pending.isEmpty) ∧
      ∃ more, full.running = s.running ++ more := by
  obtain ⟨pending, running, done, ended⟩ := s
  obtain rfl : ended = none := hended
  induction pending generalizing running with
  | nil => exact ⟨[], _, rfl, rfl, .inr rfl, [], (List.append_nil _).symm⟩
  | cons entry pending ih =>
      by_cases hroom : running.length < concurrency
      · obtain ⟨moves, full, hrun, hnone, hfull, more, hmore⟩ := ih (running ++ [entry])
        refine ⟨.claim 0 :: moves, full, ?_, hnone, hfull, entry :: more, ?_⟩
        · rw [run, step, if_pos ⟨rfl, hroom⟩]
          exact hrun
        · rw [hmore]
          exact List.append_assoc ..
      · exact ⟨[], _, rfl, rfl, .inl (Nat.le_of_not_lt hroom), [], (List.append_nil _).symm⟩

/-- An entry whose error is handed on may come first, and then ends the job. -/
theorem run_ends (hpositive : 0 < concurrency) (hmem : entry ∈ entries) {error : PhotostaffError}
    (h : processEntry entry = .error error) : ∃ moves s,
    run (step concurrency) (start entries) moves = some s ∧ s.ended = some (entry, error) := by
  obtain ⟨i, hi, hentry⟩ := List.getElem_of_mem hmem
  have hclaimed : entries[i]? = some entry := List.getElem?_eq_some_iff.mpr ⟨hi, hentry⟩
  obtain ⟨moves, full, hrun, hnone, hfull, more, hmore⟩ :=
    run_fill concurrency ⟨entries.eraseIdx i, [entry], [], none⟩ rfl
  refine ⟨(.claim i :: moves) ++ [.complete 0],
    { full with running := [], ended := some (entry, error) }, ?_, rfl⟩
  have hfill : run (step concurrency) (start entries) (.claim i :: moves) = some full := by
    have hclaim : step concurrency (start entries) (.claim i) =
        some ⟨entries.eraseIdx i, [entry], [], none⟩ := by
      rw [step, if_pos ⟨rfl, hpositive⟩]
      exact congrArg (Option.map _) hclaimed
    rw [run, hclaim, Option.bind_some]
    exact hrun
  rw [run_append hfill, run, step, if_pos ⟨Option.isNone_iff_eq_none.mpr hnone, hfull⟩, hmore]
  simp [h, run]

/-- One bad photo leaves the scan alone, whatever the order in which entries are claimed and come
to their end, exactly if no sidecar that is to be opened refuses for good. -/
theorem scan_goes_on_iff (concurrency : {n : Nat // 0 < n}) (entries : List Attempt) :
    (∀ moves s, run (step concurrency) (start entries) moves = some s →
      GoesOn concurrency entries moves s) ↔ ∀ entry ∈ entries, ¬ entry.sidecarBad := by
  constructor
  · intro h entry hmem hsidecar
    obtain ⟨hbad, error, herror⟩ := processEntry_of_sidecarBad hsidecar
    obtain ⟨moves, s, hrun, hended⟩ := run_ends concurrency.2 hmem herror
    exact (h moves s hrun).notEnded entry error hended hbad
  · intro h moves s hrun
    have hs := run_sound hrun
    refine ⟨?_, ?_, ?_, ?_⟩
    · intro entry error hended hbad
      obtain ⟨hmem, herror⟩ := hs.ended entry error hended
      cases herror.symm.trans (processEntry_of_bad hbad (h entry hmem))
    · intro entry status hdone hbad
      obtain ⟨hmem, hstatus⟩ := hs.done entry status hdone
      cases hstatus.symm.trans (processEntry_of_bad hbad (h entry hmem))
      rfl
    · have hweight := run_weight hrun
      simp only [weight, start, List.length_nil] at hweight
      omega
    · intro hended hstuck
      obtain ⟨hrunning, hpending⟩ := step_possible concurrency.2 hended hstuck
      simpa [hrunning, hpending] using hs.kept hended

/-- A photo in order, whose sidecar has been deleted since it was found. -/
def sidecarGone : Attempt where
  path := "2024/a.jpg"
  openSource := .ok ()
  openSidecar := some (.error (sourceChanged "Photostaff path changed during scanning"))
  unchanged := false
  cacheAvailableBytes := .ok ()
  reserveSpace := .ok ()
  cacheLock := .ok ()
  processMedia := .ok ()
  verifySources := .ok ()
  publishDerivatives := .ok ()
  verifyPublished := .ok ()

theorem deleted_sidecar_ends_scan :
    ∃ moves s, run (step 1) (start [sidecarGone, { sidecarGone with openSidecar := none }]) moves =
      some s ∧ ¬ GoesOn 1 [sidecarGone, { sidecarGone with openSidecar := none }] moves s := by
  refine ⟨[.claim 0, .complete 0], _, rfl, fun h => ?_⟩
  exact h.notEnded _ _ rfl (by decide)

end Zos.Photostaff.Worker
