import Mathlib.Algebra.Group.Nat.Defs
import Mathlib.Algebra.Order.Ring.Unbundled.Rat
import Zos.Lib.Reach

/-!
# The controller of the VOD player

`Controller` of `apps/vod-player/src/controller.rs` keeps one playback session on one mpv
process and its session file (`session.rs`). One turn of its loop is a command, a tick or the
shutdown. What the probe, the storage, mpv and the file system answer is an argument, so that
a turn is a function; of the status the fields that a later turn reads are kept.

Next to the controller stand the session file, the mpv processes that run, and what a client
has been told of the session (`live`), which no turn reads. A turn may be cut off between any
two of its writes: `moments` are the points where that can happen.
-/

namespace Zos.VodPlayer

inductive PlayerState where
  | idle | starting | playing | paused | recovering | stopped | error
  deriving DecidableEq

inductive ErrorCode where
  | vodPlayerDisabled | vodPlayerUnavailable | mpvUnavailable | drmUnavailable
  | audioUnavailable | permissionDenied | storageUnavailable | sourceChanged
  | unsupportedMedia | playbackFailed | commandTimeout | sessionConflict
  | invalidCommand | invalidPath | protocolError | internal
  deriving DecidableEq

def ErrorCode.retryable : ErrorCode → Bool
  | .mpvUnavailable | .drmUnavailable | .audioUnavailable | .storageUnavailable
  | .playbackFailed | .commandTimeout => true
  | _ => false

structure FileIdentity where
  device : Nat
  inode : Nat
  size : Nat
  modifiedSeconds : Int
  modifiedNanoseconds : Int
  changedSeconds : Int
  changedNanoseconds : Int
  deriving DecidableEq

/-- The fields that a desired and a persisted session share. -/
structure Playback where
  sessionId : String
  rootId : String
  storagePoolId : String
  relativePath : String
  positionSeconds : Rat
  volume : Rat
  paused : Bool
  deriving DecidableEq

structure DesiredSession extends Playback where
  identity : Option FileIdentity

structure PersistedSession extends Playback where
  identity : FileIdentity

/-- `valid_session`; a rational number is finite. -/
def PersistedSession.valid (session : PersistedSession) : Bool :=
  session.sessionId ≠ "" ∧ session.rootId ≠ "" ∧ session.storagePoolId ≠ "" ∧
    session.relativePath ≠ "" ∧ 0 ≤ session.positionSeconds ∧
    0 ≤ session.volume ∧ session.volume ≤ 100

/-- `load`, where what is no session is put aside. -/
def load (file : Option PersistedSession) : Option PersistedSession := file.filter (·.valid)

/-! ## What clients were told -/

inductive Change where
  | position (seconds : Rat)
  | volume (volume : Rat)
  | paused (paused : Bool)

inductive Happening where
  | accepted (session : Playback)
  | ended
  | acknowledged (change : Change)
  | reported (change : Change)

/-- A session that was accepted and has not ended, with the values its fields may have: that of
the last command that was acknowledged, and those that mpv reported since. -/
structure Live where
  session : Playback
  positions : List Rat
  volumes : List Rat
  pauses : List Bool

def Live.after (live : Option Live) : Happening → Option Live
  | .accepted session =>
      some ⟨session, [session.positionSeconds], [session.volume], [session.paused]⟩
  | .ended => none
  | .acknowledged (.position seconds) => live.map ({ · with positions := [seconds] })
  | .acknowledged (.volume volume) => live.map ({ · with volumes := [volume] })
  | .acknowledged (.paused paused) => live.map ({ · with pauses := [paused] })
  | .reported (.position seconds) =>
      live.map fun l => { l with positions := seconds :: l.positions }
  | .reported (.volume volume) => live.map fun l => { l with volumes := volume :: l.volumes }
  | .reported (.paused paused) => live.map fun l => { l with pauses := paused :: l.pauses }

/-- The desired session with another value. -/
def Change.edit : Change → DesiredSession → DesiredSession
  | .position value, desired => { desired with positionSeconds := value }
  | .volume value, desired => { desired with volume := value }
  | .paused value, desired => { desired with paused := value }

/-! ## The controller -/

structure VodPlayerConfig where
  checkpointIntervalMs : Nat
  retryBaseDelayMs : Nat
  retryMaxDelayMs : Nat

structure Player where
  state : PlayerState := .idle
  sessionId : Option String := none
  positionSeconds : Rat := 0
  durationSeconds : Option Rat := none
  volume : Rat := 100
  retryCount : Nat := 0
  desired : Option DesiredSession := none
  mpv : Option Nat := none
  retryAt : Option Nat := none
  stableSince : Option Nat := none
  lastCheckpoint : Nat := 0
  lastCapabilityProbe : Nat := 0
  file : Option PersistedSession := none
  running : List Nat := []
  live : Option Live := none
  moments : List (Option PersistedSession × Option Live) := []

abbrev Action : Type → Type := EStateM ErrorCode Player

def Player.note (happening : Happening) (p : Player) : Player :=
  { p with live := Live.after p.live happening }

def Player.mark (p : Player) : Player := { p with moments := p.moments ++ [(p.file, p.live)] }

/-- What becomes of a write to the session file: its directory may also fail to reach the disk
after the file was replaced or removed. -/
inductive Write where
  | done
  | unsynced (code : ErrorCode)
  | failed (code : ErrorCode)
  deriving DecidableEq

/-- `persist` with a session, `clear` without one. -/
def writeFile (write : Write) (session : Option PersistedSession) : Action Unit := fun p =>
  match write with
  | .done => .ok () { p with file := session }
  | .unsynced code => .error code { p with file := session }
  | .failed code => .error code p

/-- `let _ = x`. -/
def ignore (x : Action Unit) (p : Player) : Player :=
  match x p with
  | .ok _ p => p
  | .error _ p => p

/-- What `persist_current` saves: nothing before the media file was seen. -/
def DesiredSession.saved (desired : DesiredSession) : Option PersistedSession :=
  desired.identity.map fun identity => { desired.toPlayback with identity }

def persistCurrent (now : Nat) (write : Write) : Action Unit := fun p =>
  match p.desired.bind (·.saved) with
  | none => .ok () p
  | some session =>
      (do writeFile write (some session)
          modify fun p => { p with lastCheckpoint := now } : Action Unit) p

/-- `MpvHandle::shutdown` ends with `SIGKILL`. -/
def stopMpv (p : Player) : Player :=
  { p with mpv := none, running := p.running.filter (some · ≠ p.mpv) }

/-- What the session file answers when a session is to be resumed, and when it has ended. -/
structure Ending where
  save : Write
  clear : Write

section Turns

variable (config : VodPlayerConfig) (now : Nat)

def retryDelayMs (retryCount : Nat) : Nat :=
  min (config.retryBaseDelayMs * 2 ^ min (retryCount - 1) 20) config.retryMaxDelayMs

def scheduleRecovery (save : Write) (p : Player) : Player :=
  if p.desired.isNone then p
  else
    let retryCount := min (p.retryCount + 1) (2 ^ 32 - 1)
    (ignore (persistCurrent now save)
      { p with
        retryCount
        retryAt := some (now + retryDelayMs config retryCount)
        state := .recovering }).mark

def setTerminalError (clear : Write) (p : Player) : Player :=
  (ignore (writeFile clear none)
    (Player.note .ended { p with state := .error, retryAt := none, stableSince := none })).mark

/-- `if error.retryable() { schedule_recovery } else { set_terminal_error }`. -/
def recoverOrEnd (code : ErrorCode) (ending : Ending) (p : Player) : Player :=
  if code.retryable then scheduleRecovery config now ending.save p
  else setTerminalError ending.clear p

/-- The answers that one `attempt_start` gets. -/
structure Attempt where
  probe : Option ErrorCode
  media : Except ErrorCode FileIdentity
  save : Write
  start : Except ErrorCode Nat
  saveAgain : Write
  ending : Ending

/-- `attempt_start` up to the media file: the session with the identity of the file. -/
def openMedia (attempt : Attempt) (p : Player) : Except ErrorCode DesiredSession :=
  match p.desired, attempt.probe, attempt.media with
  | none, _, _ => .error .internal
  | some _, some code, _ => .error code
  | some _, none, .error code => .error code
  | some desired, none, .ok identity =>
      if desired.identity.any (· ≠ identity) then .error .sourceChanged
      else .ok { desired with identity := some identity }

def attemptStart (attempt : Attempt) : Action Unit := fun p =>
  match openMedia attempt p with
  | .error code => .error code p
  | .ok desired =>
      match persistCurrent now attempt.save
        { p with desired := some desired, state := .starting } with
      | .error code p => .error code p
      | .ok _ p =>
          -- an mpv that does not load the file is shut down, or killed with its handle
          match attempt.start with
          | .error code => .error code p.mark
          | .ok pid =>
              persistCurrent now attempt.saveAgain
                { p.mark with
                  mpv := some pid
                  running := pid :: p.running
                  retryAt := none
                  state := if desired.paused then .paused else .playing
                  stableSince := if desired.paused then none else some now }

def tryStartOrSchedule (attempt : Attempt) (p : Player) : Player :=
  match attemptStart now attempt p with
  | .ok _ p => p.mark
  | .error code p => recoverOrEnd config now code attempt.ending p.mark

/-! ## Events and ticks -/

inductive MpvEvent where
  | fileLoaded
  | timePos (position : Rat)
  | duration (duration : Rat)
  | pause (paused : Bool)
  | volume (volume : Rat)
  | otherProperty
  | eof
  | endFile (failure : ErrorCode)
  | exit
  | protocolFailure

def handleMpvEvent (p : Player) : MpvEvent × Ending → Player
  | (.timePos position, _) =>
      let change := Change.position (max position 0)
      Player.note (.reported change)
        { p with positionSeconds := max position 0, desired := p.desired.map change.edit }
  | (.duration duration, _) => { p with durationSeconds := some (max duration 0) }
  | (.pause paused, _) =>
      Player.note (.reported (.paused paused))
        { p with
          state := if paused then .paused else .playing
          desired := p.desired.map (Change.paused paused).edit
          stableSince := if paused then none else some now }
  | (.volume volume, _) =>
      let change := Change.volume (max 0 (min volume 100))
      Player.note (.reported change)
        { p with volume := max 0 (min volume 100), desired := p.desired.map change.edit }
  | (.eof, ending) =>
      if p.mpv.isNone then p
      else
        (ignore (writeFile ending.clear none)
          (Player.note .ended
            { stopMpv p with
              desired := none
              retryAt := none
              state := .stopped
              positionSeconds := p.durationSeconds.getD p.positionSeconds })).mark
  | (.endFile failure, ending) =>
      if p.mpv.isNone then p else recoverOrEnd config now failure ending (stopMpv p)
  | (.exit, ending) | (.protocolFailure, ending) =>
      if p.mpv.isNone then p else scheduleRecovery config now ending.save (stopMpv p)
  | (.fileLoaded, _) | (.otherProperty, _) => p

def refreshCapabilities (error : Option ErrorCode) (ending : Ending) (p : Player) : Player :=
  let p := { p with lastCapabilityProbe := now }
  match error with
  | some code => if p.mpv.isSome then recoverOrEnd config now code ending (stopMpv p) else p
  | none => p

/-- The events that one `tick` drains, and the answers it gets. -/
structure Tick where
  events : List (MpvEvent × Ending)
  probe : Option ErrorCode
  ending : Ending
  attempt : Attempt
  checkpoint : Write

def drainEvents (t : Tick) (p : Player) : Player :=
  if p.mpv.isSome then t.events.foldl (handleMpvEvent config now) p else p

def refreshIfDue (t : Tick) (p : Player) : Player :=
  if p.lastCapabilityProbe + 5000 ≤ now then refreshCapabilities config now t.probe t.ending p
  else p

def retryIfDue (t : Tick) (p : Player) : Player :=
  if p.retryAt.any (· ≤ now) then
    tryStartOrSchedule config now t.attempt { p with retryAt := none }
  else p

def resetRetries (p : Player) : Player :=
  if p.stableSince.any (· + 60000 ≤ now) ∧ p.retryCount ≠ 0 then
    { p with retryCount := 0, stableSince := none }
  else p

/-- `tick` up to the checkpoint. -/
def beforeCheckpoint (t : Tick) (p : Player) : Player :=
  resetRetries now (retryIfDue config now t (refreshIfDue config now t
    (drainEvents config now t p)))

def checkpointDue (p : Player) : Bool :=
  p.desired.isSome && p.lastCheckpoint + config.checkpointIntervalMs ≤ now

def tick (t : Tick) (p : Player) : Player :=
  let p := beforeCheckpoint config now t p
  if checkpointDue config now p then ignore (persistCurrent now t.checkpoint) p else p

/-! ## Commands -/

inductive Command where
  | status
  | play (rootId storagePoolId relativePath : String) (startPositionSeconds : Option Rat)
  | pause (sessionId : String)
  | resume (sessionId : String)
  | stop (sessionId : String)
  | retry (sessionId : String)
  | seek (sessionId : String) (seconds : Rat)
  | setVolume (sessionId : String) (volume : Rat)

/-- The id that `Uuid::new_v4` gives, and the answers that a command gets. -/
structure Answers where
  newId : String
  attempt : Attempt
  reply : Except ErrorCode Unit
  ending : Ending
  save : Write

def assertSession (sessionId : String) : Action Unit := fun p =>
  if p.sessionId = some sessionId then .ok () p else .error .sessionConflict p

def executeMpvCommand (answers : Answers) : Action Unit := fun p =>
  match if p.mpv.isSome then answers.reply else .error .vodPlayerUnavailable with
  | .ok _ => .ok () p
  | .error code =>
      .error code
        (if code.retryable then scheduleRecovery config now answers.ending.save (stopMpv p) else p)

/-- `if self.mpv.is_some() { execute_mpv_command }`. -/
def executeIfHeld (answers : Answers) : Action Unit := fun p =>
  if p.mpv.isSome then executeMpvCommand config now answers p else .ok () p

/-- `transition_checkpoint`; the command is acknowledged when it succeeds. -/
def transitionCheckpoint (save : Write) (change : Change) : Action Unit := do
  persistCurrent now save
  modify (Player.note (.acknowledged change))

def newSession (answers : Answers) (rootId storagePoolId relativePath : String)
    (start : Option Rat) (p : Player) : Playback where
  sessionId := answers.newId
  rootId
  storagePoolId
  relativePath
  positionSeconds := start.getD 0
  volume := p.volume
  paused := false

def play (answers : Answers) (session : Playback) (p : Player) : Player :=
  tryStartOrSchedule config now answers.attempt
    (Player.note (.accepted session)
      { stopMpv p with
        retryAt := none
        stableSince := none
        retryCount := 0
        desired := some { session with identity := none }
        state := .starting
        sessionId := some session.sessionId
        positionSeconds := session.positionSeconds
        volume := session.volume })

def handleCommand (answers : Answers) : Command → Action Unit
  | .status => pure ()
  | .play rootId storagePoolId relativePath start =>
      modify fun p =>
        play config now answers (newSession answers rootId storagePoolId relativePath start p) p
  | .pause sessionId => do
      assertSession sessionId
      executeMpvCommand config now answers
      modify fun p =>
        { p with
          desired := p.desired.map (Change.paused true).edit
          state := .paused
          stableSince := none }
      transitionCheckpoint now answers.save (.paused true)
  | .resume sessionId => do
      assertSession sessionId
      executeMpvCommand config now answers
      modify fun p =>
        { p with
          desired := p.desired.map (Change.paused false).edit
          state := .playing
          stableSince := some now }
      transitionCheckpoint now answers.save (.paused false)
  | .stop sessionId => do
      assertSession sessionId
      modify fun p =>
        Player.note .ended
          { stopMpv p with
            desired := none
            retryAt := none
            state := .stopped
            positionSeconds := 0
            durationSeconds := none }
      writeFile answers.ending.clear none
  | .retry sessionId => do
      assertSession sessionId
      modify fun p =>
        tryStartOrSchedule config now answers.attempt
          { stopMpv p with retryCount := 0, retryAt := none }
  | .seek sessionId seconds => do
      assertSession sessionId
      executeMpvCommand config now answers
      modify fun p =>
        { p with
          desired := p.desired.map (Change.position seconds).edit
          positionSeconds := seconds }
      transitionCheckpoint now answers.save (.position seconds)
  | .setVolume sessionId volume => do
      assertSession sessionId
      executeIfHeld config now answers
      modify fun p => { p with desired := p.desired.map (Change.volume volume).edit, volume }
      transitionCheckpoint now answers.save (.volume volume)

/-! ## The service -/

/-- `ControllerHandle::start` and the beginning of `run`. -/
def start (attempt : Attempt) (quarantined : Bool) (p : Player) : Player :=
  let started : Player :=
    { file := p.file, live := p.live, moments := p.moments,
      lastCheckpoint := now, lastCapabilityProbe := now }
  match load p.file with
  | some saved =>
      tryStartOrSchedule config now attempt
        { started with
          state := .recovering
          sessionId := some saved.sessionId
          positionSeconds := saved.positionSeconds
          volume := saved.volume
          desired := some { saved with identity := some saved.identity } }
  | none => if quarantined then { started with file := none } else started

def shutdown (save : Write) (p : Player) : Player := ignore (persistCurrent now save) (stopMpv p)

end Turns

inductive Turn where
  | start (attempt : Attempt) (quarantined : Bool)
  | command (command : Command) (answers : Answers)
  | tick (tick : Tick)
  | shutdown (save : Write)

/-- The service runs, or it has stopped and only its file is left. -/
structure Service where
  alive : Bool
  player : Player

/-- A turn at a time, cut off at one of its moments or carried out. -/
structure Input where
  now : Nat
  turn : Turn
  cut : Option Nat

def Turn.carryOut (config : VodPlayerConfig) (now : Nat) (s : Service) : Turn → Option Service
  | .start attempt quarantined =>
      if s.alive then none else some ⟨true, VodPlayer.start config now attempt quarantined s.player⟩
  | .command request answers =>
      if s.alive then some ⟨true, ignore (handleCommand config now answers request) s.player⟩
      else none
  | .tick t => if s.alive then some ⟨true, VodPlayer.tick config now t s.player⟩ else none
  | .shutdown save => if s.alive then some ⟨false, VodPlayer.shutdown now save s.player⟩ else none

def Player.begin (p : Player) : Player := { p with moments := [(p.file, p.live)] }

def step (config : VodPlayerConfig) (s : Service) (input : Input) : Option Service :=
  (input.turn.carryOut config input.now ⟨s.alive, s.player.begin⟩).bind fun s' =>
    match input.cut with
    | none => some s'
    | some k => s'.player.moments[k]?.map fun (file, live) => ⟨false, { file, live }⟩

/-- No session yet. -/
def Initial (s : Service) : Prop := s = ⟨false, {}⟩

end Zos.VodPlayer
