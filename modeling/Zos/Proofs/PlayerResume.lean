import Zos.Proofs.PlayerState

/-!
# What a restart of the VOD player resumes

The session file must describe the session that was accepted last and has not ended, with
values that were acknowledged or reported since. Four things break it: `clear` fails; a session
that ended with an error stays desired, and the next checkpoint, a retry, a new volume or the
shutdown saves it again; `Play` leaves the file of the session before it in place until the new
media file has been opened; and a command that is refused because it could not be saved has
changed the desired session all the same.

Without these the invariant is `Current` while the player is not in error: what is desired is
the live session, with values it may have, so every save writes such a session.
-/

namespace Zos.VodPlayer

open Zos.Lib

variable {config : VodPlayerConfig} {now : Nat} {p q : Player} {write : Write}
  {code : ErrorCode} {attempt : Attempt} {ending : Ending} {change : Change}
  {live : Option Live} {desired : DesiredSession}

/-! ## Sessions that a client was told of -/

/-- The session is the live one, and each value was acknowledged last or reported since. -/
def Told (live : Option Live) (session : Playback) : Prop :=
  ∃ l, live = some l ∧ session.sessionId = l.session.sessionId ∧
    session.rootId = l.session.rootId ∧ session.storagePoolId = l.session.storagePoolId ∧
    session.relativePath = l.session.relativePath ∧ session.positionSeconds ∈ l.positions ∧
    session.volume ∈ l.volumes ∧ session.paused ∈ l.pauses

/-- What the next start loads is such a session. -/
def Resumes (file : Option PersistedSession) (live : Option Live) : Prop :=
  ∀ saved, load file = some saved → Told live saved.toPlayback

@[simp] theorem Change.identity_edit (change : Change) (desired : DesiredSession) :
    (change.edit desired).identity = desired.identity := by
  cases change <;> rfl

theorem told_accepted (live : Option Live) (session : Playback) :
    Told (Live.after live (.accepted session)) session :=
  ⟨_, rfl, rfl, rfl, rfl, rfl, by simp, by simp, by simp⟩

theorem Told.reported {session : Playback} (h : Told live session) :
    Told (Live.after live (.reported change)) session := by
  obtain ⟨l, rfl, hid, hroot, hpool, hpath, hposition, hvolume, hpaused⟩ := h
  cases change <;>
    exact ⟨_, rfl, hid, hroot, hpool, hpath, by simp [hposition], by simp [hvolume],
      by simp [hpaused]⟩

theorem Told.edit_reported (h : Told live desired.toPlayback) :
    Told (Live.after live (.reported change)) (change.edit desired).toPlayback := by
  obtain ⟨l, rfl, hid, hroot, hpool, hpath, hposition, hvolume, hpaused⟩ := h
  cases change <;>
    exact ⟨_, rfl, hid, hroot, hpool, hpath, by simp [Change.edit, hposition],
      by simp [Change.edit, hvolume], by simp [Change.edit, hpaused]⟩

theorem Told.edit_acknowledged (h : Told live desired.toPlayback) :
    Told (Live.after live (.acknowledged change)) (change.edit desired).toPlayback := by
  obtain ⟨l, rfl, hid, hroot, hpool, hpath, hposition, hvolume, hpaused⟩ := h
  cases change <;>
    exact ⟨_, rfl, hid, hroot, hpool, hpath, by simp [Change.edit, hposition],
      by simp [Change.edit, hvolume], by simp [Change.edit, hpaused]⟩

theorem resumes_of_load (h : load p.file = none) : Resumes p.file live := by
  intro saved hsaved
  rw [h] at hsaved
  cases hsaved

theorem resumes_some {saved : PersistedSession} (h : Told live saved.toPlayback) :
    Resumes (some saved) live := by
  intro loaded hload
  obtain ⟨hloaded, -⟩ := Option.filter_eq_some_iff.mp hload
  cases hloaded
  exact h

/-! ## The invariant -/

/-- What is desired is the live session, and the file can be loaded only if it was saved. -/
structure Player.Current (p : Player) : Prop where
  file : Resumes p.file p.live
  desired : ∀ desired, p.desired = some desired → Told p.live desired.toPlayback
  unsaved : (∀ desired, p.desired = some desired → desired.identity = none) → load p.file = none
  moments : ∀ moment ∈ p.moments, Resumes moment.1 moment.2

/-- After an error nothing is live and there is nothing to load. -/
structure Player.Ended (p : Player) : Prop where
  state : p.state = .error
  retryAt : p.retryAt = none
  live : p.live = none
  file : load p.file = none
  moments : ∀ moment ∈ p.moments, Resumes moment.1 moment.2

def Player.Faithful (p : Player) : Prop := p.state ≠ .error ∧ p.Current ∨ p.Ended

theorem Player.Current.congr (h : p.Current) (hfile : q.file = p.file) (hlive : q.live = p.live)
    (hdesired : q.desired = p.desired) (hmoments : q.moments = p.moments) : q.Current := by
  obtain ⟨file, desired, unsaved, moments⟩ := h
  rw [← hfile, ← hlive] at file
  rw [← hdesired, ← hlive] at desired
  rw [← hdesired, ← hfile] at unsaved
  rw [← hmoments] at moments
  exact ⟨file, desired, unsaved, moments⟩

theorem Player.Current.stopMpv (h : p.Current) : (stopMpv p).Current := h.congr rfl rfl rfl rfl

theorem Player.Current.mark (h : p.Current) : p.mark.Current := by
  refine ⟨h.file, h.desired, h.unsaved, fun moment hmoment => ?_⟩
  obtain hmoment | hmoment := List.mem_append.mp hmoment
  · exact h.moments moment hmoment
  · rw [List.mem_singleton.mp hmoment]
    exact h.file

theorem Player.Faithful.mark (h : p.Faithful) : p.mark.Faithful := by
  obtain ⟨hstate, hcurrent⟩ | hended := h
  · exact .inl ⟨hstate, hcurrent.mark⟩
  · refine .inr ⟨hended.state, hended.retryAt, hended.live, hended.file, fun moment hmoment => ?_⟩
    obtain hmoment | hmoment := List.mem_append.mp hmoment
    · exact hended.moments moment hmoment
    · rw [List.mem_singleton.mp hmoment]
      exact resumes_of_load hended.file

theorem saved_eq_some {saved : PersistedSession}
    (h : p.desired.bind (·.saved) = some saved) :
    ∃ desired identity, p.desired = some desired ∧ desired.identity = some identity ∧
      saved = { desired.toPlayback with identity } := by
  obtain ⟨desired, hdesired, hsaved⟩ := Option.bind_eq_some_iff.mp h
  obtain ⟨identity, hidentity, rfl⟩ := Option.map_eq_some_iff.mp hsaved
  exact ⟨desired, identity, hdesired, hidentity, rfl⟩

/-- A save writes the desired session. -/
theorem Player.Current.saves (h : p.Current) (hsaves : Saves p q) : q.Current := by
  obtain ⟨file, last, rfl, rfl | ⟨hfile, hsome⟩⟩ := hsaves
  · exact ⟨h.file, h.desired, h.unsaved, h.moments⟩
  · obtain ⟨saved, rfl⟩ := Option.isSome_iff_exists.mp hsome
    obtain ⟨desired, identity, hdesired, hidentity, rfl⟩ := saved_eq_some hfile.symm
    refine ⟨resumes_some (h.desired desired hdesired), h.desired, fun hnone => ?_, h.moments⟩
    rw [hnone desired hdesired] at hidentity
    cases hidentity

/-- The session is over, and its file has been removed. -/
def Write.Clears (write : Write) : Prop := ∀ code, write ≠ .failed code

theorem ignore_clear_of_clears (h : write.Clears) (p : Player) :
    ignore (writeFile write none) p = { p with file := none } := by
  obtain ⟨file, heq, rfl | ⟨-, code, hcode⟩⟩ := ignore_clear write p
  · exact heq
  · exact absurd hcode (h code)

theorem setTerminalError_ended (hclear : write.Clears)
    (h : ∀ moment ∈ p.moments, Resumes moment.1 moment.2) :
    (setTerminalError write p).Faithful := by
  rw [setTerminalError, ignore_clear_of_clears hclear]
  exact Player.Faithful.mark (.inr ⟨rfl, rfl, rfl, rfl, h⟩)

theorem Player.Current.scheduleRecovery (h : p.Current) (hdesired : p.desired.isSome)
    (save : Write) : (scheduleRecovery config now save p).Faithful := by
  unfold VodPlayer.scheduleRecovery
  rw [if_neg (by simp [Option.isSome_iff_ne_none.mp hdesired])]
  have hsaves := ignore_persistCurrent now save
    { p with
      retryCount := min (p.retryCount + 1) (2 ^ 32 - 1)
      retryAt := some (now + retryDelayMs config (min (p.retryCount + 1) (2 ^ 32 - 1)))
      state := .recovering }
  refine Player.Faithful.mark (.inl ⟨?_, Player.Current.saves ?_ hsaves⟩)
  · obtain ⟨file, last, heq, -⟩ := hsaves
    rw [heq]
    exact nofun
  · exact ⟨h.file, h.desired, h.unsaved, h.moments⟩

theorem Player.Current.recoverOrEnd (h : p.Current) (hclear : ending.clear.Clears)
    (hdesired : code.retryable → p.desired.isSome) :
    (recoverOrEnd config now code ending p).Faithful := by
  unfold VodPlayer.recoverOrEnd
  split
  · next hretry => exact h.scheduleRecovery (hdesired hretry) _
  · exact setTerminalError_ended hclear h.moments

/-! ## Attempts -/

/-- The media file is opened and the session with it saved. -/
def Attempt.Opens (attempt : Attempt) : Prop :=
  attempt.probe = none ∧ (∃ identity, attempt.media = .ok identity) ∧ attempt.save.Clears

/-- Before an attempt: the file may still be that of another session if the attempt replaces it. -/
structure Player.Wanted (attempt : Attempt) (p : Player) : Prop where
  desired : ∀ desired, p.desired = some desired → Told p.live desired.toPlayback
  moments : ∀ moment ∈ p.moments, Resumes moment.1 moment.2
  file : Resumes p.file p.live ∧ ((∀ desired, p.desired = some desired →
    desired.identity = none) → load p.file = none) ∨ ∃ desired, openMedia attempt p = .ok desired ∧
      attempt.save.Clears

theorem Player.Current.wanted (h : p.Current) : p.Wanted attempt :=
  ⟨h.desired, h.moments, .inl ⟨h.file, h.unsaved⟩⟩

theorem ignore_persistCurrent_file (now : Nat) {saved : PersistedSession} (hwrite : write.Clears)
    (hsaved : p.desired.bind (·.saved) = some saved) :
    (ignore (persistCurrent now write) p).file = some saved := by
  unfold ignore persistCurrent
  rw [hsaved]
  cases write with
  | done | unsynced code => rfl
  | failed code => exact absurd rfl (hwrite code)

/-- After the first save the file is no longer that of another session. -/
theorem Player.Wanted.opened (now : Nat) (h : p.Wanted attempt)
    (hopen : openMedia attempt p = .ok desired) :
    (ignore (persistCurrent now attempt.save) (opened desired p)).Current := by
  obtain ⟨old, identity, hold, rfl⟩ := openMedia_ok hopen
  have htold : ∀ d, (VodPlayer.opened { old with identity := some identity } p).desired = some d →
      Told p.live d.toPlayback := by
    intro d hd
    cases hd
    exact h.desired old hold
  have hsaves := ignore_persistCurrent now attempt.save
    (VodPlayer.opened { old with identity := some identity } p)
  obtain ⟨hfile, hunsaved⟩ | ⟨-, -, hwrite⟩ := h.file
  · refine Player.Current.saves ?_ hsaves
    refine ⟨hfile, htold, fun hnone => ?_, h.moments⟩
    cases hnone _ rfl
  · have hfile := ignore_persistCurrent_file now hwrite
      (p := VodPlayer.opened { old with identity := some identity } p) rfl
    obtain ⟨file, last, heq, -⟩ := hsaves
    rw [heq] at hfile ⊢
    refine ⟨?_, htold, fun hnone => ?_, h.moments⟩
    · rw [hfile]
      exact resumes_some (h.desired old hold)
    · cases hnone _ rfl

theorem ignore_of_ok {x : Action Unit} (h : x p = .ok () q) : ignore x p = q := by
  rw [ignore, h]

theorem ignore_of_error {x : Action Unit} (h : x p = .error code q) : ignore x p = q := by
  rw [ignore, h]

theorem Player.Wanted.tryStartOrSchedule (h : p.Wanted attempt)
    (hclear : attempt.ending.clear.Clears) (hagain : attempt.saveAgain = .done) :
    (tryStartOrSchedule config now attempt p).Faithful := by
  unfold VodPlayer.tryStartOrSchedule
  split
  · next q hq =>
      obtain ⟨desired, pid, p₁, hopen, hfirst, hlast⟩ := attemptStart_ok hq
      have hcurrent := h.opened now hopen
      rw [ignore_of_ok hfirst] at hcurrent
      have hsaves := persistCurrent_ok hlast
      refine Player.Faithful.mark (.inl ⟨?_, Player.Current.saves ?_ hsaves⟩)
      · obtain ⟨_, _, rfl, -⟩ := hsaves
        cases hpaused : desired.paused <;> simp [started, hpaused]
      · exact ⟨hcurrent.file, hcurrent.desired, hcurrent.unsaved, hcurrent.mark.moments⟩
  · next code q hq =>
      obtain ⟨hopen, rfl⟩ | ⟨desired, hopen, hfail | ⟨p₁, hok, rfl⟩⟩ | hno := attemptStart_error hq
      · obtain ⟨hfile, hunsaved⟩ | ⟨desired, hok, -⟩ := h.file
        · have hcurrent : q.Current := ⟨hfile, h.desired, hunsaved, h.moments⟩
          exact hcurrent.mark.recoverOrEnd hclear (openMedia_error hopen)
        · rw [hopen] at hok
          cases hok
      · have hcurrent := h.opened now hopen
        rw [ignore_of_error hfail] at hcurrent
        refine hcurrent.mark.recoverOrEnd hclear fun _ => ?_
        obtain ⟨⟨_, _, rfl, -⟩, -⟩ := persistCurrent_error hfail
        rfl
      · have hcurrent := h.opened now hopen
        rw [ignore_of_ok hok] at hcurrent
        refine hcurrent.mark.mark.recoverOrEnd hclear fun _ => ?_
        obtain ⟨_, _, rfl, -⟩ := persistCurrent_ok hok
        rfl
      · exact absurd hagain hno

/-! ## Events -/

theorem Player.Current.report (h : p.Current) (change : Change) :
    (Player.note (.reported change) { p with desired := p.desired.map change.edit }).Current := by
  refine ⟨fun saved hsaved => (h.file saved hsaved).reported, ?_, fun hnone => ?_, h.moments⟩
  · intro desired hdesired
    obtain ⟨old, hold, rfl⟩ := Option.map_eq_some_iff.mp hdesired
    exact (h.desired old hold).edit_reported
  · refine h.unsaved fun desired hdesired => ?_
    simpa using hnone (change.edit desired) (by simp [Player.note, hdesired])

theorem handleMpvEvent_faithful {event : MpvEvent × Ending} (h : p.Sound) (hf : p.Faithful)
    (hpause : p.mpv = none → event.1.isPause = false) (hclear : event.2.clear.Clears) :
    (handleMpvEvent config now p event).Faithful := by
  obtain ⟨kind, ending⟩ := event
  have hheld : ∀ {x : Player}, (p.mpv.isSome → p.Current → p.desired.isSome → x.Faithful) →
      (if p.mpv.isNone then p else x).Faithful := by
    intro x hx
    split
    · exact hf
    · next hsome =>
        have hheld : p.mpv.isSome :=
          Option.isSome_iff_ne_none.mpr fun hnone => hsome (hnone ▸ rfl)
        obtain ⟨hdesired, -, hstate⟩ := h.held hheld
        obtain ⟨-, hcurrent⟩ | hended := hf
        · exact hx hheld hcurrent hdesired
        · simp [hended.state] at hstate
  -- after an error nothing is live, so there is nothing to report
  have hreport : ∀ change : Change, p.Ended →
      Live.after p.live (.reported change) = none := fun change hended => by
    rw [hended.live]
    cases change <;> rfl
  cases kind with
  | fileLoaded | otherProperty => exact hf
  | duration value =>
      exact hf.imp (fun ⟨hstate, hcurrent⟩ => ⟨hstate, hcurrent.congr rfl rfl rfl rfl⟩)
        fun hended => ⟨hended.state, hended.retryAt, hended.live, hended.file, hended.moments⟩
  | timePos position =>
      let change := Change.position (max position 0)
      exact hf.imp
        (fun ⟨hstate, hcurrent⟩ => ⟨hstate, (hcurrent.report change).congr rfl rfl rfl rfl⟩)
        fun hended => ⟨hended.state, hended.retryAt, hreport change hended, hended.file,
          hended.moments⟩
  | volume volume =>
      let change := Change.volume (max 0 (min volume 100))
      exact hf.imp
        (fun ⟨hstate, hcurrent⟩ => ⟨hstate, (hcurrent.report change).congr rfl rfl rfl rfl⟩)
        fun hended => ⟨hended.state, hended.retryAt, hreport change hended, hended.file,
          hended.moments⟩
  | pause paused =>
      have hsome : p.mpv.isSome :=
        Option.isSome_iff_ne_none.mpr fun hnone => Bool.noConfusion (hpause hnone)
      obtain ⟨-, -, hstate⟩ := h.held hsome
      obtain ⟨-, hcurrent⟩ | hended := hf
      · refine .inl ⟨?_, (hcurrent.report (.paused paused)).congr rfl rfl rfl rfl⟩
        cases paused <;> exact nofun
      · simp [hended.state] at hstate
  | eof =>
      refine hheld fun _ hcurrent _ => ?_
      rw [ignore_clear_of_clears hclear]
      exact Player.Faithful.mark
        (.inl ⟨nofun, ⟨resumes_of_load rfl, nofun, fun _ => rfl, hcurrent.moments⟩⟩)
  | endFile failure =>
      exact hheld fun _ hcurrent hdesired =>
        hcurrent.stopMpv.recoverOrEnd hclear fun _ => hdesired
  | exit | protocolFailure =>
      exact hheld fun _ hcurrent hdesired =>
        hcurrent.stopMpv.scheduleRecovery hdesired _

/-! ## Turns -/

/-- The answers to `clear` that a turn gets. -/
def Turn.clears : Turn → List Write
  | .start attempt _ => [attempt.ending.clear]
  | .command _ answers => [answers.attempt.ending.clear, answers.ending.clear]
  | .tick t => t.ending.clear :: t.attempt.ending.clear :: t.events.map (·.2.clear)
  | .shutdown _ => []

/-- A command that needs its save gets it, nothing is saved in error, and a session that is in
the file is replaced by the one played. -/
def Command.Orderly (p : Player) (answers : Answers) : Command → Prop
  | .play .. => load p.file = none ∨ answers.attempt.Opens
  | .pause _ | .resume _ | .seek _ _ => answers.save = .done
  | .setVolume _ _ => answers.save = .done ∧ p.state ≠ .error
  | .retry _ => p.state ≠ .error
  | .stop _ | .status => True

def OrderlyTurn (config : VodPlayerConfig) (s : Service) (input : Input) : Prop :=
  input.turn.Regular ∧ (∀ write ∈ input.turn.clears, write.Clears) ∧
    match input.turn with
    | .start _ _ => True
    | .command command answers => command.Orderly s.player answers
    | .tick t =>
        let p := beforeCheckpoint config input.now t s.player.begin
        checkpointDue config input.now p → p.state ≠ .error
    | .shutdown _ => s.player.state ≠ .error

theorem Player.Faithful.current (h : p.Faithful) (hstate : p.state ≠ .error) : p.Current :=
  h.elim (·.2) fun hended => absurd hended.state hstate

theorem refreshIfDue_faithful (config : VodPlayerConfig) (now : Nat) {t : Tick}
    (h : p.Sound) (hf : p.Faithful)
    (hclear : t.ending.clear.Clears) : (refreshIfDue config now t p).Faithful := by
  have hprobed : ({ p with lastCapabilityProbe := now } : Player).Faithful :=
    hf.imp (fun ⟨hstate, hcurrent⟩ => ⟨hstate, hcurrent.congr rfl rfl rfl rfl⟩)
      fun hended => ⟨hended.state, hended.retryAt, hended.live, hended.file, hended.moments⟩
  unfold refreshIfDue refreshCapabilities
  split
  · cases t.probe with
    | none => exact hprobed
    | some code =>
        dsimp only
        split
        · next hheld =>
            obtain ⟨hdesired, -, hstate⟩ := h.held hheld
            have hcurrent := hf.current (by rintro herror; simp [herror] at hstate)
            exact Player.Current.recoverOrEnd (hcurrent.congr rfl rfl rfl rfl) hclear
              fun _ => hdesired
        · exact hprobed
  · exact hf

theorem retryIfDue_faithful (config : VodPlayerConfig) (now : Nat) {t : Tick} (hf : p.Faithful)
    (hclear : t.attempt.ending.clear.Clears) (hagain : t.attempt.saveAgain = .done) :
    (retryIfDue config now t p).Faithful := by
  unfold retryIfDue
  split
  · next hdue =>
      obtain ⟨-, hcurrent⟩ | hended := hf
      · refine Player.Wanted.tryStartOrSchedule (Player.Current.wanted ?_) hclear hagain
        exact hcurrent.congr rfl rfl rfl rfl
      · simp [hended.retryAt] at hdue
  · exact hf

theorem tick_faithful {t : Tick} (h : p.Sound) (hf : p.Faithful)
    (hregular : (Turn.tick t).Regular) (hclear : ∀ write ∈ (Turn.tick t).clears, write.Clears)
    (hdue : checkpointDue config now (beforeCheckpoint config now t p) →
      (beforeCheckpoint config now t p).state ≠ .error) :
    (tick config now t p).Faithful := by
  simp only [Turn.clears, List.mem_cons, List.mem_map] at hclear
  obtain ⟨hsound, hdrain⟩ := drainEvents_keep (t := t)
    (fun p event hevent hsound hf hpause => handleMpvEvent_faithful hsound hf hpause
      (hclear _ (.inr (.inr ⟨event, hevent, rfl⟩)))) h hf hregular.2
  have hretry := retryIfDue_faithful config now
    (refreshIfDue_faithful config now hsound hdrain (hclear _ (.inl rfl)))
    (hclear _ (.inr (.inl rfl)))
    hregular.1
  have hbefore : (beforeCheckpoint config now t p).Faithful := by
    unfold beforeCheckpoint resetRetries
    split
    · exact hretry.imp (fun ⟨hstate, hcurrent⟩ => ⟨hstate, hcurrent.congr rfl rfl rfl rfl⟩)
        fun hended => ⟨hended.state, hended.retryAt, hended.live, hended.file, hended.moments⟩
    · exact hretry
  unfold tick
  dsimp only
  split
  · next hcheckpoint =>
      have hstate := hdue hcheckpoint
      have hsaves := ignore_persistCurrent now t.checkpoint (beforeCheckpoint config now t p)
      refine .inl ⟨?_, (hbefore.current hstate).saves hsaves⟩
      obtain ⟨file, last, heq, -⟩ := hsaves
      rw [heq]
      exact hstate
  · exact hbefore

theorem executeMpvCommand_faithful (answers : Answers) :
    Triple (fun p => p.Sound ∧ p.Faithful) (executeMpvCommand config now answers)
      (fun _ p => p.state ≠ .error ∧ p.Current) Player.Faithful := by
  rintro p ⟨h, hf⟩
  unfold executeMpvCommand
  by_cases hheld : p.mpv.isSome
  · rw [if_pos hheld]
    obtain ⟨hdesired, -, hstate⟩ := h.held hheld
    have hstate : p.state ≠ .error := by rintro herror; simp [herror] at hstate
    have hcurrent := hf.current hstate
    cases answers.reply with
    | ok u => exact ⟨hstate, hcurrent⟩
    | error code =>
        dsimp only
        split
        · exact hcurrent.stopMpv.scheduleRecovery hdesired _
        · exact hf
  · rw [if_neg hheld]
    exact hf

/-- The desired session has a value that is saved next and acknowledged with it. -/
def Player.Edited (change : Change) (p : Player) : Prop :=
  p.state ≠ .error ∧ ∃ before : Player, before.Current ∧ p.file = before.file ∧
    p.live = before.live ∧ p.desired = before.desired.map change.edit ∧ p.moments = before.moments

theorem transitionCheckpoint_faithful (now : Nat) (change : Change) :
    Triple (Player.Edited change) (transitionCheckpoint now .done change)
      (fun _ => Player.Faithful) Player.Faithful := by
  rintro p ⟨hstate, before, h, hfile, hlive, hdesired, hmoments⟩
  have htold : ∀ d, p.desired = some d →
      Told (Live.after p.live (.acknowledged change)) d.toPlayback := by
    intro d hd
    rw [hdesired] at hd
    obtain ⟨old, hold, rfl⟩ := Option.map_eq_some_iff.mp hd
    exact hlive ▸ (h.desired old hold).edit_acknowledged
  simp only [transitionCheckpoint, bind, EStateM.bind, persistCurrent]
  cases hsaved : p.desired.bind (·.saved) with
  | none =>
      have hload : load p.file = none := by
        rw [hfile]
        refine h.unsaved fun old hold => ?_
        rw [hdesired, hold] at hsaved
        simpa [DesiredSession.saved] using hsaved
      exact .inl ⟨hstate, resumes_of_load hload, htold, fun _ => hload, hmoments ▸ h.moments⟩
  | some saved =>
      obtain ⟨d, identity, hd, hidentity, rfl⟩ := saved_eq_some hsaved
      refine .inl ⟨hstate, resumes_some (htold d hd), htold, fun hnone => ?_, hmoments ▸ h.moments⟩
      rw [hnone d hd] at hidentity
      cases hidentity

theorem clears_command {command : Command} {answers : Answers}
    (h : ∀ write ∈ (Turn.command command answers).clears, write.Clears) :
    answers.attempt.ending.clear.Clears ∧ answers.ending.clear.Clears :=
  ⟨h _ List.mem_cons_self, h _ (List.mem_cons_of_mem _ List.mem_cons_self)⟩

theorem play_faithful {answers : Answers} {rootId storagePoolId relativePath : String}
    {start : Option Rat} (h : p.Faithful)
    (horderly : (Command.play rootId storagePoolId relativePath start).Orderly p answers)
    (hclear : answers.attempt.ending.clear.Clears) (hsave : answers.attempt.saveAgain = .done) :
    (play config now answers
      (newSession answers rootId storagePoolId relativePath start p) p).Faithful := by
  have hmoments : ∀ moment ∈ p.moments, Resumes moment.1 moment.2 :=
    h.elim (·.2.moments) (·.moments)
  refine Player.Wanted.tryStartOrSchedule ⟨?_, hmoments, ?_⟩ hclear hsave
  · intro desired hdesired
    cases hdesired
    exact told_accepted p.live _
  · refine horderly.imp (fun hload => ⟨resumes_of_load hload, fun _ => hload⟩) ?_
    rintro ⟨hprobe, ⟨identity, hmedia⟩, hfirst⟩
    refine ⟨⟨newSession answers rootId storagePoolId relativePath start p, some identity⟩, ?_,
      hfirst⟩
    simp only [openMedia, hprobe, hmedia, Player.note]
    rfl

/-- The last two steps of a command that changes the session. -/
theorem edit_faithful {answers : Answers} {change : Change} {edit : Player → Player}
    (hsave : answers.save = .done)
    (hedit : ∀ p, p.state ≠ .error → p.Current → (edit p).Edited change) :
    Triple (fun p => p.state ≠ .error ∧ p.Current)
      (do modify edit; transitionCheckpoint now answers.save change)
      (fun _ => Player.Faithful) Player.Faithful := by
  rw [hsave]
  refine Triple.bind (Triple.modify fun p h => ?_) fun _ =>
    transitionCheckpoint_faithful now change
  exact hedit p h.1 h.2

theorem told_faithful {answers : Answers} {change : Change} {edit : Player → Player}
    (sessionId : String) (hsave : answers.save = .done)
    (hedit : ∀ p, p.state ≠ .error → p.Current → (edit p).Edited change) :
    Triple (fun p => p.Sound ∧ p.Faithful)
      (do
        assertSession sessionId
        executeMpvCommand config now answers
        modify edit
        transitionCheckpoint now answers.save change)
      (fun _ => Player.Faithful) Player.Faithful :=
  Triple.bind (assertSession_keeps (fun _ h => h.2) _) fun _ =>
    Triple.bind (executeMpvCommand_faithful answers) fun _ => edit_faithful hsave hedit

theorem executeIfHeld_faithful (answers : Answers) :
    Triple (fun p => p.state ≠ .error ∧ p.Sound ∧ p.Faithful) (executeIfHeld config now answers)
      (fun _ p => p.state ≠ .error ∧ p.Current) Player.Faithful := by
  rintro p ⟨hstate, h, hf⟩
  unfold executeIfHeld
  by_cases hheld : p.mpv.isSome
  · rw [if_pos hheld]
    exact executeMpvCommand_faithful answers p ⟨h, hf⟩
  · rw [if_neg hheld]
    exact ⟨hstate, hf.current hstate⟩

theorem clear_faithful {write : Write} (hclear : write.Clears) :
    Triple (fun p => p.state = .stopped ∧ p.desired = none ∧
        ∀ moment ∈ p.moments, Resumes moment.1 moment.2)
      (writeFile write none) (fun _ => Player.Faithful) Player.Faithful := by
  rintro p ⟨hstate, hdesired, hmoments⟩
  have hstopped : ({ p with file := none } : Player).Faithful :=
    .inl ⟨by simp [hstate], resumes_of_load rfl, by simp [hdesired], fun _ => rfl, hmoments⟩
  cases hwrite : write with
  | done | unsynced code => exact hstopped
  | failed code => exact absurd hwrite (hclear code)

theorem handleCommand_faithful (config : VodPlayerConfig) (now : Nat) {command : Command}
    {answers : Answers}
    (hregular : (Turn.command command answers).Regular)
    (hclear : ∀ write ∈ (Turn.command command answers).clears, write.Clears) :
    Triple (fun p => p.Sound ∧ p.Faithful ∧ command.Orderly p answers)
      (handleCommand config now answers command) (fun _ => Player.Faithful) Player.Faithful := by
  obtain ⟨hattempt, hending⟩ := clears_command hclear
  cases command with
  | status => exact Triple.pure fun _ h => h.2.1
  | play rootId storagePoolId relativePath start =>
      exact Triple.modify fun _ h => play_faithful h.2.1 h.2.2 hattempt hregular
  | pause sessionId | resume sessionId =>
      rintro p ⟨h, hf, hsave⟩
      refine told_faithful sessionId hsave (fun p _ hcurrent => ?_) p ⟨h, hf⟩
      exact ⟨nofun, p, hcurrent, rfl, rfl, rfl, rfl⟩
  | seek sessionId seconds =>
      rintro p ⟨h, hf, hsave⟩
      refine told_faithful sessionId hsave (fun p hstate hcurrent => ?_) p ⟨h, hf⟩
      exact ⟨hstate, p, hcurrent, rfl, rfl, rfl, rfl⟩
  | setVolume sessionId volume =>
      rintro p ⟨h, hf, hsave, hstate⟩
      refine Triple.bind (assertSession_keeps (fun _ h => h.2.2) _) (fun _ =>
        Triple.bind (executeIfHeld_faithful answers) fun _ =>
          edit_faithful hsave fun p hstate hcurrent => ?_) p ⟨hstate, h, hf⟩
      exact ⟨hstate, p, hcurrent, rfl, rfl, rfl, rfl⟩
  | retry sessionId =>
      refine Triple.bind (assertSession_keeps (fun _ h => h.2.1) _) fun _ =>
        Triple.modify fun p hp => ?_
      obtain ⟨h, hf, hstate⟩ := hp
      refine Player.Wanted.tryStartOrSchedule (Player.Current.wanted ?_) hattempt hregular
      exact (hf.current hstate).congr rfl rfl rfl rfl
  | stop sessionId =>
      refine Triple.bind (assertSession_keeps (fun _ h => h.2.1) _) fun _ =>
        Triple.bind (Triple.modify fun p hp => ?_) fun _ => clear_faithful hending
      exact ⟨rfl, rfl, hp.2.1.elim (·.2.moments) (·.moments)⟩

/-! ## Runs -/

theorem Player.Current.begin (h : Resumes p.file p.live) :
    ∀ moment ∈ p.begin.moments, Resumes moment.1 moment.2 := by
  intro moment hmoment
  rw [List.mem_singleton.mp hmoment]
  exact h

theorem Player.Faithful.file (h : p.Faithful) : Resumes p.file p.live :=
  h.elim (·.2.file) fun hended => resumes_of_load hended.file

theorem Player.Faithful.begin (h : p.Faithful) : p.begin.Faithful :=
  h.imp
    (fun ⟨hstate, hcurrent⟩ => ⟨hstate, hcurrent.file, hcurrent.desired, hcurrent.unsaved,
      Player.Current.begin hcurrent.file⟩)
    fun hended => ⟨hended.state, hended.retryAt, hended.live, hended.file,
      Player.Current.begin (resumes_of_load hended.file)⟩

theorem start_faithful {quarantined : Bool} (h : Resumes p.file p.live)
    (hregular : attempt.saveAgain = .done) (hclear : attempt.ending.clear.Clears) :
    (start config now attempt quarantined p.begin).Faithful := by
  have hmoments := Player.Current.begin h
  unfold start
  dsimp only
  split
  · next saved hsaved =>
      refine Player.Wanted.tryStartOrSchedule (Player.Current.wanted ⟨h, ?_, fun hnone => ?_,
        hmoments⟩) hclear hregular
      · intro desired hdesired
        cases hdesired
        exact h saved hsaved
      · cases hnone _ rfl
  · next hnone =>
      split
      · exact .inl ⟨nofun, resumes_of_load rfl, nofun, fun _ => rfl, hmoments⟩
      · exact .inl ⟨nofun, h, nofun, fun _ => hnone, hmoments⟩

/-- The file of a service that has stopped, and all of a service that runs. -/
def Service.Faithful (s : Service) : Prop :=
  Resumes s.player.file s.player.live ∧ (s.alive → s.player.Sound ∧ s.player.Faithful)

theorem carryOut_faithful {s s' : Service} {input : Input} (h : s.Faithful)
    (horderly : OrderlyTurn config s input)
    (hturn : input.turn.carryOut config input.now ⟨s.alive, s.player.begin⟩ = some s') :
    s'.player.Faithful ∨ s'.alive = false ∧ s'.player.Current := by
  obtain ⟨now, turn, cut⟩ := input
  obtain ⟨hregular, hclear, hturns⟩ := horderly
  cases turn with
  | start attempt quarantined =>
      simp only [Turn.carryOut] at hturn
      split at hturn <;> cases hturn
      exact .inl (start_faithful h.1 hregular (hclear _ List.mem_cons_self))
  | command command answers =>
      simp only [Turn.carryOut] at hturn
      split at hturn <;> cases hturn
      next halive =>
      obtain ⟨hsound, hf⟩ := h.2 halive
      have hrun := handleCommand_faithful config now hregular hclear s.player.begin
        ⟨hsound.begin, hf.begin, hturns⟩
      left
      unfold ignore
      split at hrun <;> simp_all
  | tick t =>
      simp only [Turn.carryOut] at hturn
      split at hturn <;> cases hturn
      next halive =>
      obtain ⟨hsound, hf⟩ := h.2 halive
      exact .inl (tick_faithful hsound.begin hf.begin hregular hclear hturns)
  | shutdown save =>
      simp only [Turn.carryOut] at hturn
      split at hturn <;> cases hturn
      next halive =>
      have hcurrent := (h.2 halive).2.begin.current hturns
      exact .inr ⟨rfl, hcurrent.stopMpv.saves (ignore_persistCurrent now save _)⟩

/-- In every run whose turns are all orderly, cut off anywhere, a start resumes the session that
was accepted last and has not ended, with values that were acknowledged or reported. -/
theorem restart_resumes_live (config : VodPlayerConfig) (s : Service)
    (h : Reach (step config) (OrderlyTurn config) Initial s) :
    Resumes s.player.file s.player.live := by
  suffices hservice : s.Faithful from hservice.1
  refine h.invariant (I := Service.Faithful) (fun s hs => ?_) ?_
  · cases hs
    exact ⟨nofun, nofun⟩
  · intro s input s' hs horderly hstep
    obtain ⟨s₁, hturn, hcut⟩ := Option.bind_eq_some_iff.mp hstep
    have hkept := carryOut_faithful hs horderly hturn
    split at hcut
    · cases hcut
      have hsound := carryOut_sound (s := ⟨s.alive, s.player.begin⟩)
        (fun halive => (hs.2 halive).1.begin) horderly.1 hturn
      obtain hfaithful | ⟨hdead, hcurrent⟩ := hkept
      · exact ⟨hfaithful.file, fun halive => ⟨hsound halive, hfaithful⟩⟩
      · exact ⟨hcurrent.file, fun halive => by simp [hdead] at halive⟩
    · obtain ⟨moment, hmoment, rfl⟩ := Option.map_eq_some_iff.mp hcut
      have hmem := List.mem_of_getElem? hmoment
      exact ⟨hkept.elim (fun hf => hf.elim (·.2.moments _ hmem) (·.moments _ hmem))
        (·.2.moments _ hmem), nofun⟩

/-! ## Runs that are not orderly -/

/-- A seek in the session that is played, and the answer to its save. -/
def seeks (save : Write) : Input := sends (.seek "session" 30) "" (startsMpv 0 .done) save

theorem restart_resumes_live_seek :
    ∃ s, run (step plainConfig) ⟨false, {}⟩ [begins, plays .done, seeks .done] = some s ∧
      (load s.player.file).map (·.positionSeconds) = some 30 ∧
      Resumes s.player.file s.player.live := by
  obtain ⟨s, hrun, hs⟩ := exists_run (step plainConfig) ⟨false, {}⟩
    [begins, plays .done, seeks .done]
    (fun s => (load s.player.file).map (·.positionSeconds) = some 30) (by decide +kernel)
  refine ⟨s, hrun, of_decide_eq_true hs,
    restart_resumes_live plainConfig s (.of_run (.init rfl) ?_ hrun)⟩
  simp [OrderlyTurn, Turn.Regular, Turn.clears, Write.Clears, Command.Orderly, Attempt.Opens,
    begins, plays, seeks, sends, startsMpv]

/-- Without its probe an attempt is made again later. -/
def waitsForMpv : Attempt := { startsMpv 3 .done with probe := some .mpvUnavailable }

/-- A session that ended comes back with the next checkpoint; the session before the one that
was accepted last; and a position that was refused. -/
theorem restart_resumes_other :
    (∃ s, Reach (step plainConfig) anyStep Initial s ∧ (load s.player.file).isSome ∧
      s.player.live.isNone) ∧
    (∃ s, Reach (step plainConfig) anyStep Initial s ∧
      (load s.player.file).map (·.sessionId) = some "session" ∧
      s.player.live.map (·.session.sessionId) = some "next") ∧
    ∃ s, Reach (step plainConfig) anyStep Initial s ∧
      (load s.player.file).map (·.positionSeconds) = some 30 ∧
      s.player.live.map (·.positions) = some [0] := by
  have hended := Reach.exists_of_run (step plainConfig) ⟨false, {}⟩
    [begins, plays .done, ticks 0 [(.endFile .unsupportedMedia, ⟨.done, .done⟩)], ticks 5000 []]
    (fun s => (load s.player.file).isSome ∧ s.player.live.isNone) (by decide +kernel)
  have hbefore := Reach.exists_of_run (step plainConfig) ⟨false, {}⟩
    [begins, plays .done, sends (.play "root" "pool" "b.mp4" none) "next" waitsForMpv .done]
    (fun s => (load s.player.file).map (·.sessionId) = some "session" ∧
      s.player.live.map (·.session.sessionId) = some "next") (by decide +kernel)
  have hrefused := Reach.exists_of_run (step plainConfig) ⟨false, {}⟩
    [begins, plays .done, seeks (.failed .internal), ticks 5000 []]
    (fun s => (load s.player.file).map (·.positionSeconds) = some 30 ∧
      s.player.live.map (·.positions) = some [0]) (by decide +kernel)
  simp only [decide_eq_true_eq] at hended hbefore hrefused
  exact ⟨hended, hbefore, hrefused⟩

end Zos.VodPlayer
