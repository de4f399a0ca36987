import Zos.Docker.Console

/-!
# A console authorization is consumed once

Whatever the processes do, the record is returned at most once and in time: `used` is written over
`active` only. The other statement writes `expired` over anything, so a call that read the row
before it was consumed takes a used authorization back.
-/

namespace Zos.Docker.Console

open Zos.Lib (Reach anyStep)

/-- What the statements do. -/
inductive Step (s : State) : Action → State → Prop where
  | read {i : Nat} {now : Int} (h : s.calls i = .idle) :
      Step s (.read i now) (s.setCall i (s.row.check now))
  | expire {i : Nat} {now : Int} (h : s.calls i = .expiring now) :
      Step s (.write i) ({ s with row.status := .expired }.setCall i (.returned now none))
  | consume {i : Nat} {now : Int} (h : s.calls i = .consuming now)
      (hactive : s.row.status = .active) {row : Authorization}
      (hrow : row = { s.row with status := .used, usedAt := some now }) :
      Step s (.write i) ({ s with row := row }.setCall i (.returned now (some row)))
  | miss {i : Nat} {now : Int} (h : s.calls i = .consuming now)
      (hactive : s.row.status ≠ .active) :
      Step s (.write i) (s.setCall i (.returned now none))
  | fail (h : s.row.status = .active ∨ s.row.status = .used) :
      Step s .markFailed { s with row.status := .failed }
  | failed (h : ¬ (s.row.status = .active ∨ s.row.status = .used)) : Step s .markFailed s

variable {s s' : State} {a : Action} {i j : Nat} {now : Int}

theorem step_sound (h : step s a = some s') : Step s a s' := by
  cases a with
  | read i now =>
      simp only [step] at h
      split at h
      · next hidle =>
          cases h
          exact .read hidle
      · cases h
  | write i =>
      simp only [step] at h
      split at h
      · next now hexpiring =>
          cases h
          exact .expire hexpiring
      · next now hconsuming =>
          split at h
          · next hactive =>
              cases h
              exact .consume hconsuming hactive rfl
          · next hactive =>
              cases h
              exact .miss hconsuming hactive
      · cases h
  | markFailed =>
      simp only [step] at h
      split at h
      · next hfail =>
          cases h
          exact .fail hfail
      · next hfail =>
          cases h
          exact .failed hfail

theorem setCall_calls {call : Call} :
    (s.setCall i call).calls j = if j = i then call else s.calls j := rfl

/-- A call that does not succeed leaves the others. -/
theorem succeeded_setCall {call : Call} (hcall : ∀ now record, call ≠ .returned now (some record))
    (h : (s.setCall i call).Succeeded j) : s.Succeeded j := by
  obtain ⟨now, record, h⟩ := h
  rw [setCall_calls] at h
  split at h
  · exact absurd h (hcall now record)
  · exact ⟨now, record, h⟩

theorem check_ne_success (row : Authorization) (now now' : Int) (record : Authorization) :
    row.check now ≠ .returned now' (some record) := by
  unfold Authorization.check
  split
  · simp
  · split <;> simp

/-! ## In every run -/

/-- While the authorization is active, no call has succeeded. -/
structure Inv (s : State) : Prop where
  fresh : s.row.status = .active → ∀ i, ¬ s.Succeeded i
  once : ∀ i j, s.Succeeded i → s.Succeeded j → i = j
  pending : ∀ i now, s.calls i = .consuming now → now < s.row.expiresAt
  inTime : ∀ i now record, s.calls i = .returned now (some record) → now < record.expiresAt

theorem Initial.inv (h : Initial s) : Inv s := by
  have hnone (i : Nat) : ¬ s.Succeeded i := by
    rintro ⟨now, record, hcall⟩
    rw [h.2] at hcall
    cases hcall
  refine ⟨fun _ => hnone, fun i _ hi => absurd hi (hnone i), fun i now hcall => ?_,
    fun i now record hcall => absurd ⟨now, record, hcall⟩ (hnone i)⟩
  rw [h.2] at hcall
  cases hcall

/-- A call goes on, and does not succeed. -/
theorem Inv.setCall (h : Inv s) {call : Call}
    (hcall : ∀ now record, call ≠ .returned now (some record))
    (hpending : ∀ now, call = .consuming now → now < s.row.expiresAt) :
    Inv (s.setCall i call) where
  fresh hactive j hj := h.fresh hactive j (succeeded_setCall hcall hj)
  once j k hj hk := h.once j k (succeeded_setCall hcall hj) (succeeded_setCall hcall hk)
  pending j now hj := by
    rw [setCall_calls] at hj
    split at hj
    · exact hpending now hj
    · exact h.pending j now hj
  inTime j now record hj := by
    rw [setCall_calls] at hj
    split at hj
    · exact absurd hj (hcall now record)
    · exact h.inTime j now record hj

/-- The status changes to another one than `active`. -/
theorem Inv.setStatus (h : Inv s) {status : Status} (hstatus : status ≠ .active) :
    Inv { s with row.status := status } :=
  ⟨fun hactive => absurd hactive hstatus, h.once, h.pending, h.inTime⟩

theorem Inv.consume (h : Inv s) (hcall : s.calls i = .consuming now)
    (hactive : s.row.status = .active) {row : Authorization}
    (hrow : row = { s.row with status := .used, usedAt := some now }) :
    Inv ({ s with row := row }.setCall i (.returned now (some row))) := by
  -- Nothing had succeeded, so that `i` is the only call that has now.
  have hsucceeded (j : Nat)
      (hj : ({ s with row := row }.setCall i (.returned now (some row))).Succeeded j) : j = i := by
    obtain ⟨now', record, hj⟩ := hj
    rw [setCall_calls] at hj
    split at hj
    · next heq => exact heq
    · exact absurd ⟨now', record, hj⟩ (h.fresh hactive j)
  subst hrow
  refine ⟨nofun, fun j k hj hk => (hsucceeded j hj).trans (hsucceeded k hk).symm,
    fun j now' hj => ?_, fun j now' record hj => ?_⟩
  · rw [setCall_calls] at hj
    split at hj
    · cases hj
    · exact h.pending j now' hj
  · rw [setCall_calls] at hj
    split at hj
    · cases hj
      exact h.pending i now hcall
    · exact h.inTime j now' record hj

theorem inv_step (h : Inv s) (hs : Step s a s') : Inv s' := by
  cases hs with
  | @read i now hidle =>
      refine h.setCall (fun _ _ => check_ne_success _ _ _ _) fun now' hcall => ?_
      unfold Authorization.check at hcall
      split at hcall
      · cases hcall
      · split at hcall
        · cases hcall
        · next hlater =>
            cases hcall
            omega
  | expire hcall => exact (h.setStatus (by decide)).setCall (by simp) (by simp)
  | consume hcall hactive hrow => exact h.consume hcall hactive hrow
  | miss hcall hactive => exact h.setCall (by simp) (by simp)
  | fail hstatus => exact h.setStatus (by decide)
  | failed hstatus => exact h

theorem inv_of_reach {C : State → Action → Prop} (h : Reach step C Initial s) : Inv s :=
  h.invariant (fun _ => Initial.inv) fun _ _ _ hs _ hstep => inv_step hs (step_sound hstep)

/-! ## What a used authorization stays -/

def Kept (s : State) : Prop := ∀ i, s.Succeeded i →
  (s.row.status = .used ∨ s.row.status = .failed) ∧ s.row.usedAt.isSome

theorem Kept.setCall (h : Kept s) {call : Call}
    (hcall : ∀ now record, call ≠ .returned now (some record)) : Kept (s.setCall i call) :=
  fun j hj => h j (succeeded_setCall hcall hj)

/-- Only the statement that writes `expired` can take an authorization back. -/
theorem kept_step_iff (h : Kept s) (hs : Step s a s') : Kept s' ↔ Allowed s a := by
  cases hs with
  | read hidle => exact iff_of_true (h.setCall fun _ _ => check_ne_success _ _ _ _) trivial
  | @expire i now hcall =>
      constructor
      · intro hkept now' _ j hj
        have hne : j ≠ i := by
          rintro rfl
          obtain ⟨now', record, hj⟩ := hj
          rw [hcall] at hj
          cases hj
        obtain ⟨now'', record, hj⟩ := hj
        have hstatus := (hkept j ⟨now'', record, by rw [setCall_calls, if_neg hne, hj]⟩).1
        exact absurd hstatus (by simp [State.setCall])
      · intro hallowed j hj
        exact absurd (succeeded_setCall (s := { s with row.status := .expired }) (by simp) hj)
          (hallowed now hcall j)
  | consume hcall hactive hrow =>
      refine iff_of_true (fun j _ => ?_) fun now' hexpiring => ?_
      · rw [hrow]
        exact ⟨.inl rfl, rfl⟩
      · rw [hcall] at hexpiring
        cases hexpiring
  | miss hcall hactive =>
      refine iff_of_true (h.setCall (by simp)) fun now' hexpiring => ?_
      rw [hcall] at hexpiring
      cases hexpiring
  | fail hstatus => exact iff_of_true (fun j hj => ⟨.inr rfl, (h j hj).2⟩) trivial
  | failed hstatus => exact iff_of_true h trivial

theorem kept_of_reach (h : Reach step Allowed Initial s) : Kept s := by
  refine h.invariant (I := Kept) (fun s hs i hi => ?_) fun s a s' hs hallowed hstep => ?_
  · obtain ⟨now, record, hi⟩ := hi
    rw [hs.2] at hi
    cases hi
  · exact (kept_step_iff hs (step_sound hstep)).mpr hallowed

theorem one_time_iff (t : Taken) : OneTime t.next ↔ Allowed t.state t.action := by
  have hstep := step_sound t.taken
  have hnext := inv_step (inv_of_reach t.reached) hstep
  rw [← kept_step_iff (kept_of_reach t.reached) hstep]
  exact ⟨OneTime.kept, fun hkept => ⟨hnext.once, hnext.inTime, hkept⟩⟩

def created : State := ⟨⟨.active, 300000, none⟩, fun _ => .idle⟩

theorem created_initial : Initial created := ⟨⟨0, none, rfl⟩, fun _ => rfl⟩

/-- A call that reads and writes. -/
theorem one_time_used : ∃ t : Taken, t.next.row.status = .used ∧ OneTime t.next := by
  refine ⟨⟨created.setCall 0 (.consuming 0), .step (.init created_initial) (a := .read 0 0)
    trivial rfl, .write 0, _, rfl⟩, rfl, (one_time_iff _).mpr ?_⟩
  intro now hcall
  cases hcall

/-- In every run the record is returned once, and in time. -/
theorem returned_once (s : {s // Reach step anyStep Initial s}) :
    (∀ i j, s.1.Succeeded i → s.1.Succeeded j → i = j) ∧
      ∀ i now record, s.1.calls i = .returned now (some record) → now < record.expiresAt :=
  ⟨(inv_of_reach s.2).once, (inv_of_reach s.2).inTime⟩

/-! ## Two calls on both sides of the expiry -/

/-- The second call reads the row before the first one consumes it, and its clock is late. -/
def bothSides : List Action := [.read 0 299999, .read 1 300000, .write 0, .write 1]

theorem used_becomes_expired : ∃ s, Reach step anyStep Initial s ∧ ¬ OneTime s := by
  obtain ⟨s, hrun, hs⟩ := Zos.Lib.exists_run step created bothSides
    (fun s => (s.calls 0 == .returned 299999 (some ⟨.used, 300000, some 299999⟩)) &&
      s.row.status == .expired) (by decide)
  simp only [Bool.and_eq_true, beq_iff_eq] at hs
  refine ⟨s, .of_run (.init created_initial) (fun _ _ _ => trivial) hrun, fun hone => ?_⟩
  obtain ⟨hstatus, -⟩ := hone.kept 0 ⟨_, _, hs.1⟩
  rw [hs.2] at hstatus
  exact absurd hstatus (by decide)

end Zos.Docker.Console
