import Zos.Servers.SignalLoop

/-!
# Signals between two turns

A signal is kept only by the listener of the turn it is delivered in. It is lost when it comes
while a branch works, and when a branch is taken although the listener has seen it.
-/

namespace Zos.Servers

open Zos.Lib

variable {Branch : Type}

/-- Signals come while the loop selects, and no branch is preferred to one. -/
def Heeds (s : State) : Action Branch → Prop
  | .signal => s.phase ≠ .working
  | .take _ => s.noticed = false
  | _ => True

/-- The `select!` that the loop is in or enters next. -/
def nextSelect (loop : Loop Branch) (s : State) : Option State :=
  if s.phase = .selecting then some s else step loop s .turn

/-- If a signal was delivered, the loop has left or leaves through its shutdown branch there. -/
def LeavesNext (loop : Loop Branch) (s : State) : Prop :=
  s.delivered → s.phase = .left ∨
    ((nextSelect loop s).bind fun select => step loop select .shutdown).isSome

/-- A delivered signal is still with a listener, or the loop has left for it. -/
def Kept (s : State) : Prop :=
  s.delivered → s.phase = .left ∨ s.phase = .selecting ∧ s.noticed

structure Valid (s : State) : Prop where
  delivered_of_noticed : s.noticed → s.delivered
  starting : s.phase = .starting → s.delivered = false
  killed : s.killed → s.delivered = false

theorem Valid.new : Valid State.new :=
  ⟨(nomatch ·), fun _ => rfl, fun _ => rfl⟩

/-! ## Steps -/

section Steps

variable {loop : Loop Branch} {s s' : State} {action : Action Branch}

inductive Step (loop : Loop Branch) (s : State) : Action Branch → State → Prop where
  | kill (hphase : s.phase = .starting) : Step loop s .signal { s with killed := true }
  | notice (hphase : s.phase = .selecting) :
      Step loop s .signal { s with noticed := true, delivered := true }
  | lose (hphase : s.phase = .working) : Step loop s .signal { s with delivered := true }
  | late (hphase : s.phase = .left) : Step loop s .signal s
  | turn (hphase : s.phase = .starting ∨ s.phase = .working) :
      Step loop s .turn { s with phase := .selecting, noticed := false }
  | take (branch : Branch) (hphase : s.phase = .selecting) :
      Step loop s (.take branch) { s with
        phase := .working
        connections := loop.connections s.connections branch
        noticed := false }
  | shutdown (hphase : s.phase = .selecting) : Step loop s .shutdown { s with phase := .left }
  | fail (hphase : s.phase = .selecting) : Step loop s .fail { s with phase := .left }

theorem step_sound (h : step loop s action = some s') : Step loop s action s' := by
  unfold step at h
  split at h
  · cases h
  · split at h <;> rename_i hphase <;> try split at h
    all_goals cases h
    · exact .kill hphase
    · exact .notice hphase
    · exact .lose hphase
    · exact .late hphase
    · exact .turn (.inl hphase)
    · exact .turn (.inr hphase)
    · exact .take _ hphase
    · exact .shutdown hphase
    · exact .fail hphase

theorem Valid.step (hs : Valid s) (h : step loop s action = some s') : Valid s' := by
  have halive : ¬ s.killed := by
    intro hkilled
    unfold Servers.step at h
    rw [if_pos hkilled] at h
    cases h
  cases step_sound h with
  | kill hphase => exact ⟨hs.delivered_of_noticed, hs.starting, fun _ => hs.starting hphase⟩
  | notice hphase | lose hphase =>
      refine ⟨fun _ => rfl, fun hstart => ?_, fun hkilled => absurd hkilled halive⟩
      rw [hphase] at hstart
      cases hstart
  | late => exact hs
  | turn | take => exact ⟨(nomatch ·), (nomatch ·), hs.killed⟩
  | shutdown | fail => exact ⟨hs.delivered_of_noticed, (nomatch ·), hs.killed⟩

/-- A step keeps the signals exactly if it heeds them. -/
theorem kept_step_iff (hs : Valid s) (hkept : Kept s) (h : step loop s action = some s') :
    Kept s' ↔ Heeds s action := by
  cases step_sound h with
  | kill hphase =>
      refine iff_of_true (fun hdelivered => ?_) (by rw [Heeds, hphase]; decide)
      have hnone : s.delivered = false := hs.starting hphase
      rw [hnone] at hdelivered
      cases hdelivered
  | notice hphase =>
      exact iff_of_true (fun _ => .inr ⟨hphase, rfl⟩) (by rw [Heeds, hphase]; decide)
  | lose hphase =>
      refine iff_of_false (fun hlater => ?_) (fun hheeds => hheeds hphase)
      rcases hlater rfl with hleft | ⟨hselecting, -⟩
      · rw [hphase] at hleft
        cases hleft
      · rw [hphase] at hselecting
        cases hselecting
  | late hphase => exact iff_of_true hkept (by rw [Heeds, hphase]; decide)
  | turn hphase =>
      refine iff_of_true (fun hdelivered => ?_) trivial
      -- no signal was delivered: it would have been lost in the turn before
      rcases hkept hdelivered with hleft | ⟨hselecting, -⟩
      · rw [hleft] at hphase
        rcases hphase with hphase | hphase <;> cases hphase
      · rw [hselecting] at hphase
        rcases hphase with hphase | hphase <;> cases hphase
  | take branch hphase =>
      constructor
      · intro hlater
        cases hnoticed : s.noticed with
        | false => exact hnoticed
        | true =>
            rcases hlater (hs.delivered_of_noticed hnoticed) with hleft | ⟨hselecting, -⟩
            · cases hleft
            · cases hselecting
      · intro hheeds hdelivered
        rcases hkept hdelivered with hleft | ⟨-, hnoticed⟩
        · rw [hphase] at hleft
          cases hleft
        · rw [show s.noticed = false from hheeds] at hnoticed
          cases hnoticed
  | shutdown | fail => exact iff_of_true (fun _ => .inl rfl) trivial

end Steps

/-! ## Runs -/

theorem valid_kept_of_reach {loop : Loop Branch} {s : State}
    (h : Reach (step loop) Heeds (· = State.new) s) : Valid s ∧ Kept s := by
  induction h with
  | init hs =>
      rw [hs]
      exact ⟨.new, fun hdelivered => nomatch hdelivered⟩
  | step _ hheeds hstep ih =>
      exact ⟨ih.1.step hstep, (kept_step_iff ih.1 ih.2 hstep).mpr hheeds⟩

theorem leavesNext_iff_kept {loop : Loop Branch} {s : State} (hs : Valid s) :
    LeavesNext loop s ↔ Kept s := by
  refine forall_congr' fun hdelivered => or_congr_right ?_
  have halive : ¬ s.killed := fun hkilled => by
    rw [hs.killed hkilled] at hdelivered
    cases hdelivered
  cases hphase : s.phase with
  | starting =>
      rw [hs.starting hphase] at hdelivered
      cases hdelivered
  | selecting => simp [nextSelect, step, hphase, halive]
  | working => simp [nextSelect, step, hphase, halive]
  | left => simp [nextSelect, step, hphase, halive]

/-! ## The two servers -/

inductive Server where
  | hostd
  | termux
  deriving DecidableEq, Repr

def Server.Work : Server → Type
  | .hostd => HostdBranch
  | .termux => TermuxBranch

def Server.loop : (server : Server) → Loop server.Work
  | .hostd => Servers.hostd
  | .termux => Servers.termux

/-- A step of a loop that has heeded every signal so far. -/
structure NextStep (server : Server) where
  before : State
  reached : Reach (step server.loop) Heeds (· = State.new) before
  action : Action server.Work
  after : State
  taken : step server.loop before action = some after

theorem signal_leaves_loop_iff (server : Server) (next : NextStep server) :
    LeavesNext server.loop next.before ∧
      (LeavesNext server.loop next.after ↔ Heeds next.before next.action) := by
  obtain ⟨hvalid, hkept⟩ := valid_kept_of_reach next.reached
  rw [leavesNext_iff_kept hvalid, leavesNext_iff_kept (hvalid.step next.taken)]
  exact ⟨hkept, kept_step_iff hvalid hkept next.taken⟩

/-- The first signal while the loop selects. -/
theorem first_signal_leaves_loop :
    ∃ next : NextStep .hostd, next.after.delivered ∧ LeavesNext hostd next.after := by
  let next : NextStep .hostd :=
    ⟨_, .step (.init rfl) (a := .turn) trivial rfl, .signal, _, rfl⟩
  exact ⟨next, rfl, (signal_leaves_loop_iff .hostd next).2.mpr nofun⟩

/-- While hostd recovers, or the broker reaps, a signal arrives. -/
theorem signal_lost_while_working :
    (∃ s, run (step hostd) State.new [.turn, .take .recover, .signal] = some s ∧
      ¬ LeavesNext hostd s) ∧
    ∃ s, run (step termux) State.new [.turn, .take .reap, .signal] = some s ∧
      ¬ LeavesNext termux s := by
  refine ⟨⟨⟨.working, 0, false, true, false⟩, rfl, fun h => ?_⟩,
    ⟨.working, 0, false, true, false⟩, rfl, fun h => ?_⟩
  · rcases h rfl with hleft | hshutdown
    · cases hleft
    · cases hshutdown
  · rcases h rfl with hleft | hshutdown
    · cases hleft
    · cases hshutdown

end Zos.Servers
