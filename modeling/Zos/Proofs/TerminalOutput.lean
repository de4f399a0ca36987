import Zos.Termux.OpenSession

/-!
# Terminal output and the exit event

What was sent and what is queued is always what was written. The exit event may overtake the
queue, and then the rest of it is never sent: the loop has ended.
-/

namespace Zos.Termux.OpenSession

open Zos.Lib
open Zos.Termux.Frames (Bytes)

/-- The bytes an event carries. -/
def Event.bytes : Event → Bytes
  | .output bytes => bytes
  | .exit _ _ _ => []

def sent (events : List Event) : Bytes := events.flatMap Event.bytes

def Event.isExit : Event → Bool
  | .output _ => false
  | .exit _ _ _ => true

theorem sent_concat (events : List Event) (event : Event) :
    sent (events ++ [event]) = sent events ++ event.bytes := by
  rw [sent, List.flatMap_append, List.flatMap_singleton]
  rfl

/-! ## Steps -/

/-- What a step does to what was written, queued and sent. -/
theorem step_cases {s s' : State} {action : Action} (h : step s action = some s') :
    (∃ bytes, s'.written = s.written ++ bytes ∧ s'.queued = s.queued ++ bytes ∧
      s'.events = s.events) ∨
    (∃ bytes, s'.written = s.written ∧ bytes ++ s'.queued = s.queued ∧
      s'.events = s.events ++ [.output bytes]) ∨
    (∃ exitCode signal recoverable, s'.written = s.written ∧ s'.queued = s.queued ∧
      s'.events = s.events ++ [.exit exitCode signal recoverable]) := by
  cases action with
  | write bytes =>
      unfold step at h
      dsimp only at h
      split at h
      · cases h
      · cases h
        exact .inl ⟨bytes, rfl, rfl, rfl⟩
  | exit status =>
      unfold step at h
      dsimp only at h
      split at h
      · cases h
      · cases h
        exact .inl ⟨[], (List.append_nil _).symm, (List.append_nil _).symm, rfl⟩
  | read count =>
      unfold step at h
      dsimp only at h
      split at h
      · cases h
        exact .inr (.inl ⟨s.queued.take count, rfl, List.take_append_drop count s.queued, rfl⟩)
      · cases h
  | hangUp recoverable =>
      unfold step at h
      dsimp only at h
      split at h
      · obtain ⟨status, -, rfl⟩ := Option.map_eq_some_iff.mp h
        exact .inr (.inr ⟨_, _, _, rfl, rfl, rfl⟩)
      · cases h
  | wait recoverable =>
      unfold step at h
      dsimp only at h
      split at h
      · obtain ⟨status, -, rfl⟩ := Option.map_eq_some_iff.mp h
        exact .inr (.inr ⟨_, _, _, rfl, rfl, rfl⟩)
      · cases h
  | shutdown =>
      unfold step at h
      dsimp only at h
      split at h
      · cases h
        exact .inl ⟨[], (List.append_nil _).symm, (List.append_nil _).symm, rfl⟩
      · cases h

/-- Nothing is lost or changed on the way from the child to the client. -/
def Conserved (s : State) : Prop := sent s.events ++ s.queued = s.written

theorem Conserved.step {s s' : State} {action : Action} (hs : Conserved s)
    (h : step s action = some s') : Conserved s' := by
  unfold Conserved at hs ⊢
  rcases step_cases h with ⟨bytes, hw, hq, he⟩ | ⟨bytes, hw, hq, he⟩ | ⟨_, _, _, hw, hq, he⟩
  · rw [hw, hq, he, ← List.append_assoc, hs]
  · rw [hw, he, sent_concat, List.append_assoc, Event.bytes, hq, hs]
  · rw [hw, hq, he, sent_concat, Event.bytes, List.append_nil, hs]

theorem conserved_of_reach {s : State} (h : Reach step anyStep (· = State.new) s) :
    Conserved s := by
  refine h.invariant ?_ fun _ _ _ hs _ hstep => Conserved.step hs hstep
  rintro _ rfl
  rfl

theorem sent_before_written (s : {s // Reach step anyStep (· = State.new) s}) :
    sent s.1.events <+: s.1.written :=
  ⟨s.1.queued, conserved_of_reach s.2⟩

/-- One of two bytes is read before the child exits. -/
theorem sent_before_written_one : ∃ s, run step State.new
    [.write [104, 105], .read 1, .exit ⟨some 0, none⟩] = some s ∧
      sent s.events = [104] ∧ sent s.events <+: s.written := by
  obtain ⟨s, hrun, hs⟩ := exists_run step State.new
    [.write [104, 105], .read 1, .exit ⟨some 0, none⟩] (fun s => sent s.events = [104]) (by decide)
  exact ⟨s, hrun, of_decide_eq_true hs,
    sent_before_written ⟨s, .of_run (.init rfl) (fun _ _ _ => trivial) hrun⟩⟩

/-! ## The exit event -/

/-- The step of a run that sends the exit event. -/
structure ExitStep where
  before : State
  reached : Reach step anyStep (· = State.new) before
  action : Action
  after : State
  taken : step before action = some after
  exits : after.events.length = before.events.length + 1 ∧ after.events.getLast?.any Event.isExit

theorem ExitStep.queued_eq (exit : ExitStep) : exit.after.queued = exit.before.queued := by
  obtain ⟨hlength, hlast⟩ := exit.exits
  rcases step_cases exit.taken with ⟨_, _, _, he⟩ | ⟨_, _, _, he⟩ | ⟨_, _, _, _, hq, _⟩
  · rw [he] at hlength
    omega
  · rw [he, List.getLast?_concat] at hlast
    cases hlast
  · exact hq

theorem output_complete_iff (exit : ExitStep) :
    sent exit.after.events = exit.after.written ↔ exit.before.queued = [] := by
  have hconserved : Conserved exit.after := (conserved_of_reach exit.reached).step exit.taken
  rw [← exit.queued_eq, ← hconserved, List.self_eq_append_right]

/-- The child writes two bytes and exits, and the loop sees the exit first. -/
def hastyExit : ExitStep where
  before := ⟨[104, 105], [104, 105], some ⟨some 0, none⟩, true, []⟩
  reached := by
    have hrun : run step State.new [.write [104, 105], .exit ⟨some 0, none⟩] =
        some ⟨[104, 105], [104, 105], some ⟨some 0, none⟩, true, []⟩ := rfl
    exact Reach.of_run (.init rfl) (fun _ _ _ => trivial) hrun
  action := .wait false
  after := ⟨[104, 105], [104, 105], some ⟨some 0, none⟩, false, [.exit 0 none false]⟩
  taken := rfl
  exits := ⟨rfl, rfl⟩

theorem exit_overtakes_output :
    ∃ exit : ExitStep, sent exit.after.events ≠ exit.after.written :=
  ⟨hastyExit, by decide⟩

end Zos.Termux.OpenSession
