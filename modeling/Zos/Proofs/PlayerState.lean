import Zos.Lib.Triple
import Zos.VodPlayer.Controller

/-!
# The state that the VOD player reports

Between two turns of the loop a state of play goes with an mpv process that is held, and a
state of rest with none. Two things are needed for it. The session must be saved after mpv has
been started: a save that fails there leads to recovery, or to an error, with the process
still held, and the next attempt starts a second one. And no change of the pause property may
be drained behind an event that ended playback: it sets a state of play without a process.
-/

namespace Zos.VodPlayer

open Zos.Lib

variable {config : VodPlayerConfig} {now : Nat} {p q : Player} {write : Write}
  {code : ErrorCode} {attempt : Attempt} {ending : Ending}

/-! ## What a save changes -/

/-- Only the session file and the time of the checkpoint differ, and the file is the old one or
the desired session. -/
def Saves (p q : Player) : Prop :=
  ∃ file lastCheckpoint, q = { p with file, lastCheckpoint } ∧
    (file = p.file ∨ file = p.desired.bind (·.saved) ∧ file.isSome)

theorem Saves.refl (p : Player) : Saves p p := ⟨_, _, rfl, .inl rfl⟩

theorem persistCurrent_ok (h : persistCurrent now write p = .ok () q) : Saves p q := by
  unfold persistCurrent at h
  split at h
  · cases h
    exact .refl p
  · next session hsaved =>
      cases write with
      | done =>
          cases h
          exact ⟨_, _, rfl, .inr ⟨hsaved.symm, rfl⟩⟩
      | unsynced code => cases h
      | failed code => cases h

theorem persistCurrent_error (h : persistCurrent now write p = .error code q) :
    Saves p q ∧ write ≠ .done := by
  unfold persistCurrent at h
  split at h
  · cases h
  · next session hsaved =>
      cases write with
      | done => cases h
      | unsynced code =>
          cases h
          exact ⟨⟨_, _, rfl, .inr ⟨hsaved.symm, rfl⟩⟩, nofun⟩
      | failed code =>
          cases h
          exact ⟨.refl p, nofun⟩

theorem ignore_persistCurrent (now : Nat) (write : Write) (p : Player) :
    Saves p (ignore (persistCurrent now write) p) := by
  unfold ignore
  split
  · next q h => exact persistCurrent_ok h
  · next code q h => exact (persistCurrent_error h).1

/-- `clear` changes the session file alone. -/
theorem ignore_clear (write : Write) (p : Player) :
    ∃ file, ignore (writeFile write none) p = { p with file } ∧
      (file = none ∨ file = p.file ∧ ∃ code, write = .failed code) := by
  cases write with
  | done => exact ⟨none, rfl, .inl rfl⟩
  | unsynced code => exact ⟨none, rfl, .inl rfl⟩
  | failed code => exact ⟨p.file, rfl, .inr ⟨rfl, code, rfl⟩⟩

/-! ## What an attempt does -/

theorem openMedia_ok {desired : DesiredSession} (h : openMedia attempt p = .ok desired) :
    ∃ old identity, p.desired = some old ∧ desired = { old with identity := some identity } := by
  unfold openMedia at h
  split at h
  · cases h
  · cases h
  · cases h
  · next old identity hold _ _ =>
      split at h
      · cases h
      · cases h
        exact ⟨old, identity, hold, rfl⟩

theorem openMedia_error (h : openMedia attempt p = .error code) (hretry : code.retryable) :
    p.desired.isSome := by
  unfold openMedia at h
  split at h
  · cases h
    cases hretry
  all_goals simp_all

/-- The player once the media file is known, and once mpv has been started. -/
def opened (desired : DesiredSession) (p : Player) : Player :=
  { p with desired := some desired, state := .starting }

def started (now pid : Nat) (desired : DesiredSession) (p : Player) : Player :=
  { p with
    mpv := some pid
    running := pid :: p.running
    retryAt := none
    state := if desired.paused then .paused else .playing
    stableSince := if desired.paused then none else some now }

theorem attemptStart_ok (h : attemptStart now attempt p = .ok () q) :
    ∃ desired pid p₁, openMedia attempt p = .ok desired ∧
      persistCurrent now attempt.save (opened desired p) = .ok () p₁ ∧
      persistCurrent now attempt.saveAgain (started now pid desired p₁.mark) = .ok () q := by
  unfold attemptStart at h
  split at h
  · cases h
  · next desired hopen =>
      split at h
      · cases h
      · next p₁ hsave =>
          split at h
          · cases h
          · next pid _ => exact ⟨desired, pid, p₁, hopen, hsave, h⟩

/-- An attempt fails before the media file is known, before mpv is there, or at its last save. -/
theorem attemptStart_error (h : attemptStart now attempt p = .error code q) :
    openMedia attempt p = .error code ∧ q = p ∨
    (∃ desired, openMedia attempt p = .ok desired ∧
      (persistCurrent now attempt.save (opened desired p) = .error code q ∨
      ∃ p₁, persistCurrent now attempt.save (opened desired p) = .ok () p₁ ∧ q = p₁.mark)) ∨
    attempt.saveAgain ≠ .done := by
  unfold attemptStart at h
  split at h
  · next hopen =>
      cases h
      exact .inl ⟨hopen, rfl⟩
  · next desired hopen =>
      split at h
      · next hsave =>
          cases h
          exact .inr (.inl ⟨desired, hopen, .inl hsave⟩)
      · next p₁ hsave =>
          split at h
          · cases h
            exact .inr (.inl ⟨desired, hopen, .inr ⟨p₁, hsave, rfl⟩⟩)
          · exact .inr (.inr (persistCurrent_error h).2)

/-! ## The invariant -/

/-- The processes that run are the one held; it is held exactly in a state of play. -/
structure Player.Sound (p : Player) : Prop where
  running : p.running = p.mpv.toList
  held : p.mpv.isSome →
    p.desired.isSome ∧ p.retryAt = none ∧ (p.state = .playing ∨ p.state = .paused)
  free : p.mpv = none → p.state ≠ .playing ∧ p.state ≠ .paused
  recovering : p.state = .recovering → p.desired.isSome ∧ p.retryAt.isSome

/-- No process is held and none runs. -/
def Player.Free (p : Player) : Prop := p.mpv = none ∧ p.running = []

theorem Player.Sound.stopMpv (h : p.Sound) : (stopMpv p).Free := by
  refine ⟨rfl, ?_⟩
  rw [VodPlayer.stopMpv, h.running]
  cases p.mpv <;> simp

/-- At rest: in recovery a retry of the desired session is due. -/
theorem Player.Free.sound (h : p.Free) (hstate : p.state ≠ .playing ∧ p.state ≠ .paused)
    (hrecovering : p.state = .recovering → p.desired.isSome ∧ p.retryAt.isSome) : p.Sound where
  running := by rw [h.2, h.1, Option.toList_none]
  held hsome := by simp [h.1] at hsome
  free _ := hstate
  recovering := hrecovering

theorem Player.Sound.saves (h : p.Sound) (hsaves : Saves p q) : q.Sound := by
  obtain ⟨file, last, rfl, -⟩ := hsaves
  exact ⟨h.running, h.held, h.free, h.recovering⟩

theorem Player.Sound.cleared (h : p.Sound) (clear : Write) :
    (ignore (writeFile clear none) p).Sound := by
  obtain ⟨file, heq, -⟩ := ignore_clear clear p
  rw [heq]
  exact ⟨h.running, h.held, h.free, h.recovering⟩

/-- Values of the session do not matter. -/
theorem Player.Sound.edit (h : p.Sound) (f : DesiredSession → DesiredSession)
    (positionSeconds volume : Rat) (live : Option Live) :
    ({ p with desired := p.desired.map f, positionSeconds, volume, live } : Player).Sound :=
  ⟨h.running, by simpa using h.held, h.free, by simpa using h.recovering⟩

theorem Player.Sound.mark (h : p.Sound) : p.mark.Sound :=
  ⟨h.running, h.held, h.free, h.recovering⟩

theorem Player.Sound.begin (h : p.Sound) : p.begin.Sound :=
  ⟨h.running, h.held, h.free, h.recovering⟩

theorem Player.Free.scheduleRecovery (h : p.Free) (hdesired : p.desired.isSome) (save : Write) :
    (scheduleRecovery config now save p).Sound := by
  unfold VodPlayer.scheduleRecovery
  rw [if_neg (by simp [Option.isSome_iff_ne_none.mp hdesired])]
  refine (Player.Sound.saves ?_ (ignore_persistCurrent now save _)).mark
  refine Player.Free.sound ?_ ⟨nofun, nofun⟩ fun _ => ⟨hdesired, rfl⟩
  exact h

theorem Player.Free.recoverOrEnd (h : p.Free) (hdesired : code.retryable → p.desired.isSome) :
    (recoverOrEnd config now code ending p).Sound := by
  unfold VodPlayer.recoverOrEnd
  split
  · next hretry => exact h.scheduleRecovery (hdesired hretry) _
  · refine (Player.Sound.cleared ?_ _).mark
    refine Player.Free.sound ?_ ⟨nofun, nofun⟩ nofun
    exact h

/-- With the last save an attempt leaves the state true. -/
theorem Player.Free.tryStartOrSchedule (h : p.Free) (hsave : attempt.saveAgain = .done) :
    (tryStartOrSchedule config now attempt p).Sound := by
  unfold VodPlayer.tryStartOrSchedule
  split
  · next q hq =>
      obtain ⟨desired, pid, p₁, -, hfirst, hlast⟩ := attemptStart_ok hq
      obtain ⟨_, _, rfl, -⟩ := persistCurrent_ok hfirst
      obtain ⟨_, _, rfl, -⟩ := persistCurrent_ok hlast
      refine ⟨by simp [Player.mark, started, opened, h.2], fun _ => ⟨rfl, ?_⟩, nofun, ?_⟩
      · cases hpaused : desired.paused <;> simp [Player.mark, started, hpaused]
      · cases hpaused : desired.paused <;> simp [Player.mark, started, hpaused]
  · next code q hq =>
      obtain ⟨hopen, rfl⟩ | ⟨desired, -, hfail | ⟨p₁, hok, rfl⟩⟩ | hno := attemptStart_error hq
      · exact Player.Free.recoverOrEnd h (openMedia_error hopen)
      · obtain ⟨⟨_, _, rfl, -⟩, -⟩ := persistCurrent_error hfail
        exact Player.Free.recoverOrEnd h fun _ => rfl
      · obtain ⟨_, _, rfl, -⟩ := persistCurrent_ok hok
        exact Player.Free.recoverOrEnd h fun _ => rfl
      · exact absurd hsave hno

/-! ## Events -/

def MpvEvent.ends : MpvEvent → Bool
  | .eof | .endFile _ | .exit | .protocolFailure => true
  | _ => false

def MpvEvent.isPause : MpvEvent → Bool
  | .pause _ => true
  | _ => false

/-- A change of the pause property stands behind an event that ends playback. -/
def pauseAfterEnd : List (MpvEvent × Ending) → Bool
  | [] => false
  | event :: rest => event.1.ends && rest.any (·.1.isPause) || pauseAfterEnd rest

theorem handleMpvEvent_sound (config : VodPlayerConfig) (now : Nat) {event : MpvEvent × Ending}
    (h : p.Sound) (hpause : p.mpv = none → event.1.isPause = false) :
    (handleMpvEvent config now p event).Sound ∧
      ((handleMpvEvent config now p event).mpv = none → p.mpv = none ∨ event.1.ends) := by
  have hended : p.mpv.isNone ≠ true → p.desired.isSome := fun hheld =>
    (h.held (Option.isSome_iff_ne_none.mpr fun hnone => hheld (hnone ▸ rfl))).1
  obtain ⟨kind, ending⟩ := event
  cases kind with
  | fileLoaded | otherProperty => exact ⟨h, .inl⟩
  | duration value => exact ⟨⟨h.running, h.held, h.free, h.recovering⟩, .inl⟩
  | timePos position | volume volume => exact ⟨h.edit _ _ _ _, .inl⟩
  | pause paused =>
      have hheld : p.mpv.isSome :=
        Option.isSome_iff_ne_none.mpr fun hnone => Bool.noConfusion (hpause hnone)
      refine ⟨⟨h.running, fun _ => ?_, fun hnone => ?_, fun hstate => ?_⟩, .inl⟩
      · obtain ⟨hdesired, hretry, -⟩ := h.held hheld
        cases paused <;> simpa [handleMpvEvent, Player.note] using ⟨hdesired, hretry⟩
      · rw [show p.mpv = none from hnone] at hheld
        cases hheld
      · cases paused <;> cases hstate
  | eof =>
      refine ⟨?_, fun _ => .inr rfl⟩
      simp only [handleMpvEvent]
      split
      · exact h
      · refine (Player.Sound.cleared ?_ _).mark
        refine Player.Free.sound ?_ ⟨nofun, nofun⟩ nofun
        exact h.stopMpv
  | endFile failure =>
      refine ⟨?_, fun _ => .inr rfl⟩
      simp only [handleMpvEvent]
      split
      · exact h
      · next hheld => exact h.stopMpv.recoverOrEnd fun _ => hended hheld
  | exit | protocolFailure =>
      refine ⟨?_, fun _ => .inr rfl⟩
      simp only [handleMpvEvent]
      split
      · exact h
      · next hheld => exact h.stopMpv.scheduleRecovery (hended hheld) _

/-- The loop over the events: once playback has ended no change of the pause property is left. -/
theorem events_keep {I : Player → Prop} {events : List (MpvEvent × Ending)}
    (hstep : ∀ p, ∀ event ∈ events, p.Sound → I p → (p.mpv = none → event.1.isPause = false) →
      I (handleMpvEvent config now p event))
    (h : p.Sound) (hI : I p) (hpause : p.mpv = none → events.any (·.1.isPause) = false)
    (hafter : pauseAfterEnd events = false) :
    (events.foldl (handleMpvEvent config now) p).Sound ∧
      I (events.foldl (handleMpvEvent config now) p) := by
  induction events generalizing p with
  | nil => exact ⟨h, hI⟩
  | cons event rest ih =>
      rw [pauseAfterEnd, Bool.or_eq_false_iff, Bool.and_eq_false_iff] at hafter
      simp only [List.any_cons, Bool.or_eq_false_iff] at hpause
      have hfirst : p.mpv = none → event.1.isPause = false := fun hnone => (hpause hnone).1
      obtain ⟨hsound, hended⟩ := handleMpvEvent_sound config now h hfirst
      refine ih (fun p other hother => hstep p other (List.mem_cons_of_mem _ hother)) hsound
        (hstep p event List.mem_cons_self h hI hfirst) (fun hnone => ?_) hafter.2
      obtain hfree | hends := hended hnone
      · exact (hpause hfree).2
      · exact hafter.1.resolve_left (by simp [hends])

theorem refreshCapabilities_sound (h : p.Sound) (error : Option ErrorCode) :
    (refreshCapabilities config now error ending p).Sound := by
  have hprobed : ({ p with lastCapabilityProbe := now } : Player).Sound :=
    ⟨h.running, h.held, h.free, h.recovering⟩
  cases error with
  | none => exact hprobed
  | some code =>
      simp only [refreshCapabilities]
      split
      · next hheld => exact hprobed.stopMpv.recoverOrEnd fun _ => (h.held hheld).1
      · exact hprobed

/-! ## Turns -/

/-- The save that follows a start of mpv succeeds, and no change of the pause property comes
behind an end. -/
def Turn.Regular : Turn → Prop
  | .start attempt _ => attempt.saveAgain = .done
  | .command _ answers => answers.attempt.saveAgain = .done
  | .tick t => t.attempt.saveAgain = .done ∧ pauseAfterEnd t.events = false
  | .shutdown _ => True

theorem drainEvents_keep {I : Player → Prop} {t : Tick}
    (hstep : ∀ p, ∀ event ∈ t.events, p.Sound → I p → (p.mpv = none → event.1.isPause = false) →
      I (handleMpvEvent config now p event))
    (h : p.Sound) (hI : I p) (hafter : pauseAfterEnd t.events = false) :
    (drainEvents config now t p).Sound ∧ I (drainEvents config now t p) := by
  unfold drainEvents
  split
  · next hheld => exact events_keep hstep h hI (fun hnone => by simp [hnone] at hheld) hafter
  · exact ⟨h, hI⟩

theorem refreshIfDue_sound (config : VodPlayerConfig) (now : Nat) (h : p.Sound) (t : Tick) :
    (refreshIfDue config now t p).Sound := by
  unfold refreshIfDue
  split
  · exact refreshCapabilities_sound h _
  · exact h

theorem retryIfDue_sound (config : VodPlayerConfig) (now : Nat) {t : Tick} (h : p.Sound)
    (hsave : t.attempt.saveAgain = .done) :
    (retryIfDue config now t p).Sound := by
  unfold retryIfDue
  split
  · next hdue =>
      -- a retry is due only while no process is held
      have hfree : p.mpv = none := by
        cases hmpv : p.mpv with
        | none => rfl
        | some pid => simp [(h.held (by simp [hmpv])).2.1] at hdue
      exact Player.Free.tryStartOrSchedule
        ⟨hfree, h.running.trans (by rw [hfree, Option.toList_none])⟩ hsave
  · exact h

theorem beforeCheckpoint_sound (config : VodPlayerConfig) (now : Nat) {t : Tick}
    (h : p.Sound) (hregular : (Turn.tick t).Regular) :
    (beforeCheckpoint config now t p).Sound := by
  have hdrain : (drainEvents config now t p).Sound :=
    (drainEvents_keep (I := fun _ => True) (fun _ _ _ _ _ _ => trivial) h trivial hregular.2).1
  have hretry := retryIfDue_sound config now (refreshIfDue_sound config now hdrain t) hregular.1
  unfold beforeCheckpoint resetRetries
  split
  · exact ⟨hretry.running, hretry.held, hretry.free, hretry.recovering⟩
  · exact hretry

theorem tick_sound {t : Tick} (h : p.Sound) (hregular : (Turn.tick t).Regular) :
    (tick config now t p).Sound := by
  have hbefore := beforeCheckpoint_sound config now h hregular
  unfold tick
  dsimp only
  split
  · exact hbefore.saves (ignore_persistCurrent now _ _)
  · exact hbefore

theorem assertSession_keeps {P E : Player → Prop} (hE : ∀ p, P p → E p) (sessionId : String) :
    Triple P (assertSession sessionId) (fun _ => P) E := by
  intro p h
  by_cases hid : p.sessionId = some sessionId
  · simpa [assertSession, hid] using h
  · simpa [assertSession, hid] using hE p h

theorem executeMpvCommand_sound (config : VodPlayerConfig) (now : Nat) (answers : Answers) :
    Triple Player.Sound (executeMpvCommand config now answers)
      (fun _ p => p.Sound ∧ p.mpv.isSome) Player.Sound := by
  intro p h
  unfold executeMpvCommand
  by_cases hheld : p.mpv.isSome
  · rw [if_pos hheld]
    cases answers.reply with
    | ok u => exact ⟨h, hheld⟩
    | error code =>
        dsimp only
        split
        · exact h.stopMpv.scheduleRecovery (h.held hheld).1 _
        · exact h
  · rw [if_neg hheld]
    exact h

theorem transitionCheckpoint_sound (save : Write) (change : Change) :
    Triple Player.Sound (transitionCheckpoint now save change) (fun _ => Player.Sound)
      Player.Sound := by
  refine Triple.bind (Q := fun _ => Player.Sound) (fun p h => ?_) fun _ => Triple.modify ?_
  · split
    · next q hsave => exact h.saves (persistCurrent_ok hsave)
    · next code q hsave => exact h.saves (persistCurrent_error hsave).1
  · exact fun p h => ⟨h.running, h.held, h.free, h.recovering⟩

theorem handleCommand_sound (config : VodPlayerConfig) (now : Nat) (command : Command)
    (answers : Answers) (hsave : answers.attempt.saveAgain = .done) :
    Triple Player.Sound (handleCommand config now answers command) (fun _ => Player.Sound)
      Player.Sound := by
  cases command with
  | status => exact Triple.pure fun _ h => h
  | play rootId storagePoolId relativePath start =>
      exact Triple.modify fun p h => Player.Free.tryStartOrSchedule h.stopMpv hsave
  | pause sessionId | resume sessionId =>
      refine Triple.bind (assertSession_keeps (fun _ h => h) _) fun _ =>
        Triple.bind (executeMpvCommand_sound config now answers) fun _ =>
          Triple.bind (Triple.modify fun p ⟨h, hheld⟩ => ?_) fun _ =>
            transitionCheckpoint_sound _ _
      obtain ⟨hdesired, hretry, -⟩ := h.held hheld
      refine ⟨h.running, fun _ => ⟨?_, hretry, ?_⟩, fun hnone => ?_, nofun⟩
      · simpa using hdesired
      · simp
      · simp [show p.mpv = none from hnone] at hheld
  | stop sessionId =>
      refine Triple.bind (assertSession_keeps (fun _ h => h) _) fun _ =>
        Triple.bind (Triple.modify (Q := fun _ => Player.Sound) fun p h => ?_) fun _ p h => ?_
      · refine Player.Free.sound ?_ ⟨nofun, nofun⟩ nofun
        exact h.stopMpv
      · have hcleared := Player.Sound.cleared h answers.ending.clear
        unfold ignore at hcleared
        split at hcleared <;> simp_all
  | retry sessionId =>
      refine Triple.bind (assertSession_keeps (fun _ h => h) _) fun _ => Triple.modify fun p h => ?_
      exact Player.Free.tryStartOrSchedule h.stopMpv hsave
  | seek sessionId seconds =>
      refine Triple.bind (assertSession_keeps (fun _ h => h) _) fun _ =>
        Triple.bind (executeMpvCommand_sound config now answers) fun _ =>
          Triple.bind (Triple.modify fun p ⟨h, _⟩ => h.edit _ _ _ _) fun _ =>
            transitionCheckpoint_sound _ _
  | setVolume sessionId volume =>
      refine Triple.bind (assertSession_keeps (fun _ h => h) _) fun _ =>
        Triple.bind (Q := fun _ => Player.Sound) (fun p h => ?_) fun _ =>
          Triple.bind (Triple.modify fun p h => h.edit _ _ _ _) fun _ =>
            transitionCheckpoint_sound _ _
      by_cases hheld : p.mpv.isSome
      · have hrun := executeMpvCommand_sound config now answers p h
        rw [executeIfHeld, if_pos hheld]
        split at hrun
        · exact hrun.1
        · exact hrun
      · rw [executeIfHeld, if_neg hheld]
        exact h

/-! ## Runs -/

/-- What a client may conclude from the state it is shown. -/
structure Player.Truthful (p : Player) : Prop where
  playing : p.state = .playing ∨ p.state = .paused → p.mpv.isSome
  resting : p.state = .stopped ∨ p.state = .error ∨ p.state = .recovering → p.mpv = none
  recovering : p.state = .recovering → p.desired.isSome ∧ p.retryAt.isSome
  single : p.running.length ≤ 1

theorem Player.Sound.truthful (h : p.Sound) : p.Truthful where
  playing hstate := Option.isSome_iff_ne_none.mpr fun hnone => by
    obtain ⟨hplaying, hpaused⟩ := h.free hnone
    exact hstate.elim hplaying hpaused
  resting hstate := by
    cases hmpv : p.mpv with
    | none => rfl
    | some pid =>
        obtain ⟨-, -, hplay⟩ := h.held (by simp [hmpv])
        obtain hplay | hplay := hplay <;> simp [hplay] at hstate
  recovering := h.recovering
  single := by
    rw [h.running]
    cases p.mpv <;> simp

def RegularTurn (_ : Service) (input : Input) : Prop := input.turn.Regular

theorem carryOut_sound {s s' : Service} {turn : Turn} (h : s.alive → s.player.Sound)
    (hregular : turn.Regular) (hturn : turn.carryOut config now s = some s') :
    s'.alive → s'.player.Sound := by
  cases turn with
  | start attempt quarantined =>
      simp only [Turn.carryOut] at hturn
      split at hturn <;> cases hturn
      intro _
      unfold start
      dsimp only
      split
      · refine Player.Free.tryStartOrSchedule ?_ hregular
        exact ⟨rfl, rfl⟩
      · refine Player.Free.sound ?_ ?_ ?_ <;> split <;> simp [Player.Free]
  | command command answers =>
      simp only [Turn.carryOut] at hturn
      split at hturn <;> cases hturn
      next halive =>
      have hrun := handleCommand_sound config now command answers hregular
        s.player (h halive)
      intro _
      unfold ignore
      split at hrun <;> simp_all
  | tick t =>
      simp only [Turn.carryOut] at hturn
      split at hturn <;> cases hturn
      next halive => exact fun _ => tick_sound (h halive) hregular
  | shutdown save =>
      simp only [Turn.carryOut] at hturn
      split at hturn <;> cases hturn
      exact nofun

/-- In every run whose turns are all regular, the state shown between two turns is true. -/
theorem reported_state_truthful (config : VodPlayerConfig) (s : Service)
    (h : Reach (step config) RegularTurn Initial s) : s.alive → s.player.Truthful := by
  suffices hsound : s.alive → s.player.Sound from fun halive => (hsound halive).truthful
  refine h.invariant (I := fun s => s.alive → s.player.Sound) (fun s hs => ?_) ?_
  · cases hs
    exact nofun
  · intro s input s' hsound hregular hstep
    obtain ⟨s₁, hturn, hcut⟩ := Option.bind_eq_some_iff.mp hstep
    have hs₁ := carryOut_sound (s := ⟨s.alive, s.player.begin⟩)
      (fun halive => (hsound halive).begin) hregular hturn
    split at hcut
    · cases hcut
      exact hs₁
    · obtain ⟨_, -, rfl⟩ := Option.map_eq_some_iff.mp hcut
      exact nofun

/-! ## Runs that are not regular -/

def plainConfig : VodPlayerConfig := ⟨5000, 1000, 60000⟩

/-- An attempt that starts process `pid`, and the answer to its last save. -/
def startsMpv (pid : Nat) (saveAgain : Write) : Attempt :=
  ⟨none, .ok ⟨1, 2, 3, 4, 5, 6, 7⟩, .done, .ok pid, saveAgain, ⟨.done, .done⟩⟩

def begins : Input := ⟨0, .start (startsMpv 0 .done) false, none⟩

def sends (command : Command) (newId : String) (attempt : Attempt) (save : Write) : Input :=
  ⟨0, .command command ⟨newId, attempt, .ok (), ⟨.done, .done⟩, save⟩, none⟩

def plays (saveAgain : Write) : Input :=
  sends (.play "root" "pool" "a.mp4" none) "session" (startsMpv 1 saveAgain) .done

def ticks (now : Nat) (events : List (MpvEvent × Ending)) : Input :=
  ⟨now, .tick ⟨events, none, ⟨.done, .done⟩, startsMpv 2 .done, .done⟩, none⟩

theorem reported_state_truthful_playing :
    ∃ s, run (step plainConfig) ⟨false, {}⟩ [begins, plays .done, ticks 0 []] = some s ∧
      s.player.state = .playing ∧ s.player.Truthful := by
  obtain ⟨s, hrun, hs⟩ :=
    exists_run (step plainConfig) ⟨false, {}⟩ [begins, plays .done, ticks 0 []]
    (fun s => s.alive ∧ s.player.state = .playing) (by decide +kernel)
  obtain ⟨halive, hstate⟩ := of_decide_eq_true hs
  refine ⟨s, hrun, hstate, reported_state_truthful plainConfig s (.of_run (.init rfl) ?_ hrun)
    halive⟩
  simp [RegularTurn, Turn.Regular, begins, plays, sends, ticks, startsMpv, pauseAfterEnd]

/-- Recovery with a process held, then two processes; and play without one. -/
theorem reported_state_not_truthful :
    (∃ s, Reach (step plainConfig) anyStep Initial s ∧ s.alive ∧
      s.player.state = .recovering ∧ s.player.mpv = some 1) ∧
    (∃ s, Reach (step plainConfig) anyStep Initial s ∧ s.alive ∧ s.player.running = [2, 1]) ∧
    ∃ s, Reach (step plainConfig) anyStep Initial s ∧ s.alive ∧
      s.player.state = .playing ∧ s.player.mpv = none := by
  have hunsaved := Reach.exists_of_run (step plainConfig) ⟨false, {}⟩
    [begins, plays (.failed .storageUnavailable)]
    (fun s => s.alive ∧ s.player.state = .recovering ∧ s.player.mpv = some 1) (by decide +kernel)
  have htwo := Reach.exists_of_run (step plainConfig) ⟨false, {}⟩
    [begins, plays (.failed .storageUnavailable), ticks 1000 []]
    (fun s => s.alive ∧ s.player.running = [2, 1]) (by decide +kernel)
  have hpause := Reach.exists_of_run (step plainConfig) ⟨false, {}⟩
    [begins, plays .done,
      ticks 0 [(.endFile .playbackFailed, ⟨.done, .done⟩), (.pause false, ⟨.done, .done⟩)]]
    (fun s => s.alive ∧ s.player.state = .playing ∧ s.player.mpv = none) (by decide +kernel)
  simp only [decide_eq_true_eq] at hunsaved htwo hpause
  exact ⟨hunsaved, htwo, hpause⟩

end Zos.VodPlayer
