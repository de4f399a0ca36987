import Zos.Lib.Keyed
import Zos.Lib.Reach

/-!
# The transcript on the screen

`transcriptReducer` and `mergeTranscriptMessages` of `apps/web/src/lib/transcript.ts`, with
`eventToTranscriptMessage` of `events.ts`, driven as `App.tsx` drives them: sessions are begun,
snapshots and chat events of persisted messages come in, and a message that is sent is shown at
once, without a sequence, until the server has acknowledged or refused it.
-/

namespace Zos.Web.Transcript

open Zos.Lib

inductive Role where
  | user
  | assistant
  deriving DecidableEq, Repr

structure TranscriptMessage where
  id : String
  role : Role
  content : String
  createdAt : String
  sequence : Option Nat
  deriving DecidableEq, Repr

inductive TranscriptPhase where
  | idle
  | loading
  | ready
  | error
  deriving DecidableEq, Repr

structure TranscriptState where
  sessionId : Option String
  phase : TranscriptPhase
  messages : List TranscriptMessage
  deriving DecidableEq, Repr

inductive TranscriptAction where
  | prepare
  | begin (sessionId : String)
  | snapshot (sessionId : String) (messages : List TranscriptMessage)
  | event (sessionId : String) (message : TranscriptMessage)
  | optimistic (sessionId : String) (message : TranscriptMessage)
  | acknowledge (sessionId optimisticId : String) (message : TranscriptMessage)
  | rollback (sessionId optimisticId : String)
  | failed (sessionId : Option String)
  | reset
  deriving DecidableEq, Repr

/-! ## The reducer -/

def initialTranscriptState : TranscriptState := ⟨none, .idle, []⟩

def sequenceLe (left right : TranscriptMessage) : Bool :=
  left.sequence.getD 0 ≤ right.sequence.getD 0

/-- A `Map` keeps the place of a key that is set again. -/
def setMessage : List TranscriptMessage → TranscriptMessage → List TranscriptMessage :=
  upsert TranscriptMessage.id fun _ _ => true

def mergeTranscriptMessages (first second : List TranscriptMessage) : List TranscriptMessage :=
  let merged := (first ++ second).foldl setMessage []
  if merged.any (·.sequence = none) then merged else merged.mergeSort sequenceLe

def transcriptReducer (state : TranscriptState) : TranscriptAction → TranscriptState
  | .reset => initialTranscriptState
  | .prepare => ⟨none, .loading, []⟩
  | .begin sessionId => ⟨some sessionId, .loading, []⟩
  | .snapshot sessionId messages =>
      if state.sessionId ≠ some sessionId then state
      else { state with
        phase := .ready, messages := mergeTranscriptMessages messages state.messages }
  | .event sessionId message | .optimistic sessionId message =>
      if state.sessionId ≠ some sessionId then state
      else { state with messages := mergeTranscriptMessages state.messages [message] }
  | .acknowledge sessionId optimisticId message =>
      if state.sessionId ≠ some sessionId then state
      else { state with messages :=
        mergeTranscriptMessages (state.messages.filter (·.id ≠ optimisticId)) [message] }
  | .rollback sessionId optimisticId =>
      if state.sessionId ≠ some sessionId then state
      else { state with messages := state.messages.filter (·.id ≠ optimisticId) }
  | .failed sessionId =>
      if state.sessionId ≠ sessionId then state else { state with phase := .error }

/-! ## Chat events -/

inductive Audience where
  | chat
  | notification
  deriving DecidableEq, Repr

/-- `content` and `error` are what the payload has as strings. -/
structure AgentEvent where
  id : Nat
  type : String
  audience : Audience
  transcriptSequence : Option Nat
  content : Option String
  error : Option String
  createdAt : String
  deriving DecidableEq, Repr

def AgentEvent.message (event : AgentEvent) (content : String) : TranscriptMessage :=
  ⟨"event:" ++ toString event.id, .assistant, content, event.createdAt, event.transcriptSequence⟩

def failedJobToTranscriptMessage (event : AgentEvent) : Option TranscriptMessage :=
  let error := event.error.getD ""
  if error = "" then none else some (event.message ("Agent failed: " ++ error))

def eventToTranscriptMessage (event : AgentEvent) : Option TranscriptMessage :=
  if event.audience ≠ .chat then none
  else if event.type = "job.failed" then failedJobToTranscriptMessage event
  else if event.type ≠ "agent.message" then none
  else
    let content := event.content.getD ""
    if content = "" then none else some (event.message content)

/-! ## Runs -/

/-- The messages that are persisted, each under its session. -/
structure Persisted where
  messages : List (String × TranscriptMessage)
  ids : (messages.map (·.2.id)).Nodup
  numbered : ∀ entry ∈ messages, entry.2.sequence.isSome

structure State where
  shown : TranscriptState
  /-- What came of the current session in a snapshot, event or acknowledgement since it began. -/
  seen : List TranscriptMessage
  /-- The optimistic messages that wait for their answer, by session and id. -/
  pending : List (String × String)
  /-- The ids of all optimistic messages so far. -/
  issued : List String
  rolledBack : List String
  deriving DecidableEq, Repr

inductive Input where
  | dispatch (action : TranscriptAction)
  /-- An event of the stream of a session. -/
  | deliver (sessionId : String) (event : AgentEvent)
  deriving DecidableEq, Repr

def Input.action : Input → Option TranscriptAction
  | .dispatch action => some action
  | .deliver sessionId event => (eventToTranscriptMessage event).map (.event sessionId)

/-- What the server and the form can send: persisted messages of the session, new optimistic
messages, and one answer to each. -/
def valid (persisted : Persisted) (s : State) : TranscriptAction → Bool
  | .snapshot sessionId messages => messages.all fun m => (sessionId, m) ∈ persisted.messages
  | .event sessionId message => (sessionId, message) ∈ persisted.messages
  | .optimistic _ message =>
      message.sequence = none ∧ message.id ∉ s.issued ∧
        message.id ∉ persisted.messages.map (·.2.id)
  | .acknowledge sessionId optimisticId message =>
      (sessionId, optimisticId) ∈ s.pending ∧ (sessionId, message) ∈ persisted.messages
  | .rollback sessionId optimisticId => (sessionId, optimisticId) ∈ s.pending
  | _ => true

/-- The messages an action brings of a session. -/
def brought : TranscriptAction → Option (String × List TranscriptMessage)
  | .snapshot sessionId messages => some (sessionId, messages)
  | .event sessionId message | .acknowledge sessionId _ message => some (sessionId, [message])
  | _ => none

def State.seenAfter (s : State) (action : TranscriptAction) : List TranscriptMessage :=
  match action with
  | .reset | .prepare | .begin _ => []
  | action =>
      match brought action with
      | some (sessionId, messages) =>
          if s.shown.sessionId = some sessionId then s.seen ++ messages else s.seen
      | none => s.seen

def State.dispatch (s : State) (action : TranscriptAction) : State :=
  let after := { s with shown := transcriptReducer s.shown action, seen := s.seenAfter action }
  match action with
  | .optimistic sessionId message =>
      { after with
        pending := (sessionId, message.id) :: s.pending, issued := message.id :: s.issued }
  | .acknowledge sessionId id _ => { after with pending := s.pending.filter (· ≠ (sessionId, id)) }
  | .rollback sessionId id =>
      { after with
        pending := s.pending.filter (· ≠ (sessionId, id)), rolledBack := id :: s.rolledBack }
  | _ => after

def step (persisted : Persisted) (s : State) (input : Input) : Option State :=
  match input.action with
  | none => some s
  | some action => if valid persisted s action then some (s.dispatch action) else none

def Initial (s : State) : Prop := s = ⟨initialTranscriptState, [], [], [], []⟩

/-! ## Purpose -/

/-- No optimistic message of the current session is pending. -/
def State.Quiet (s : State) : Prop := ∀ entry ∈ s.pending, s.shown.sessionId ≠ some entry.1

def InOrder (messages : List TranscriptMessage) : Prop :=
  messages.Pairwise fun left right => sequenceLe left right

/-- What the list shown should be. -/
structure Converged (persisted : Persisted) (s : State) : Prop where
  complete : ∀ m ∈ s.seen, m ∈ s.shown.messages
  once : (s.shown.messages.map (·.id)).Nodup
  own : ∀ m ∈ s.shown.messages, m ∈ s.seen ∧
    ∃ sessionId, s.shown.sessionId = some sessionId ∧ (sessionId, m) ∈ persisted.messages
  noneRolledBack : ∀ m ∈ s.shown.messages, m.id ∉ s.rolledBack
  inOrder : InOrder s.shown.messages

/-- The last message of the current session that is pending is rolled back only where the
persisted messages on the screen stand in order. -/
def Allowed (s : State) (input : Input) : Prop :=
  ∀ sessionId id, input = .dispatch (.rollback sessionId id) →
    s.shown.sessionId = some sessionId →
    (∀ entry ∈ s.pending, entry.1 = sessionId → entry.2 = id) →
    InOrder (s.shown.messages.filter (·.sequence.isSome))

structure Taken (persisted : Persisted) where
  state : State
  reached : Reach (step persisted) Allowed Initial state
  input : Input
  next : State
  taken : step persisted state input = some next

end Zos.Web.Transcript
