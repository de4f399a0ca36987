import Zos.Lib.Js
import Zos.Lib.Json

/-!
# The transcript of a session

`POST /api/sessions/:id/messages` and `GET /api/sessions/:id/transcript` of
`apps/api/src/routes/sessions.ts`, `createUserMessageAndJob` and `appendEvent` of
`packages/db/src/repositories/jobs.ts`, `listTranscriptItems` of
`packages/db/src/repositories/transcript.ts` and the readers of payloads in
`apps/api/src/lib/events.ts`. A history is what was appended to the sessions of a database, by
whichever process; every append is one transaction. Ids and times are left out: the sequence tells
the items apart.
-/

namespace Zos.Jobs.Transcript

open Zos.Lib

/-- The role of a message. -/
inductive Role where
  | user
  | assistant
  | system
  deriving DecidableEq, Repr

inductive EventType where
  | agentMessage
  | jobFailed
  | other
  deriving DecidableEq, Repr

inductive Append where
  /-- A posted message, with the content of the body. -/
  | message (sessionId : String) (content : Option String)
  /-- An event, with the role of the message that its job belongs to. -/
  | event (sessionId : String) (jobRole : Option Role) (type : EventType) (payload : Json)

def Append.sessionId : Append → String
  | .message sessionId _ => sessionId
  | .event sessionId _ _ _ => sessionId

/-- What an item refers to. -/
inductive Source where
  | message (content : String)
  | event (type : EventType) (payload : Json)

structure Item where
  sequence : Nat
  sessionId : String
  source : Source

/-- The table of items, and the next sequence. -/
structure Db where
  items : List Item
  sequence : Nat

/-- `eventAudience` is chat. -/
def isChat (jobRole : Option Role) : Bool := jobRole ≠ some .system

/-- What an append puts into the transcript. -/
def Append.source : Append → Option Source
  | .message _ content => ((content.map trim).filter (· ≠ "")).map .message
  | .event _ jobRole type payload =>
    if isChat jobRole && (type = .agentMessage || type = .jobFailed) then
      some (.event type payload)
    else none

def append (db : Db) (a : Append) : Db :=
  match a.source with
  | none => db
  | some source => ⟨db.items ++ [⟨db.sequence, a.sessionId, source⟩], db.sequence + 1⟩

/-- The items are in the order of their sequences. -/
def listTranscriptItems (db : Db) (sessionId : String) (limit : Nat) : List Item :=
  (db.items.filter (·.sessionId = sessionId)).take limit

/-! ## The answer -/

structure Entry where
  role : Role
  content : String
  sequence : Nat
  deriving DecidableEq, Repr

def textField (payload : Json) (name : String) : String :=
  match payload.fields.lookup name with
  | some (.string text) => text
  | _ => ""

def getAgentMessageRole (payload : Json) : Role :=
  if textField payload "role" = "user" then .user else .assistant

def getAgentMessageContent (payload : Json) : String := textField payload "content"

def getFailedJobMessageContent (payload : Json) : String :=
  let error := textField payload "error"
  if error ≠ "" then "Agent failed: " ++ error else ""

def Source.role : Source → Role
  | .message _ => .user
  | .event type payload => if type = .jobFailed then .assistant else getAgentMessageRole payload

def Source.content : Source → String
  | .message content => content
  | .event type payload =>
    if type = .jobFailed then getFailedJobMessageContent payload else getAgentMessageContent payload

def Item.entry (item : Item) : Option Entry :=
  if item.source.content = "" then none
  else some ⟨item.source.role, item.source.content, item.sequence⟩

/-- `GET /api/sessions/:id/transcript`. -/
def transcript (db : Db) (sessionId : String) : List Entry :=
  (listTranscriptItems db sessionId 500).filterMap Item.entry

/-! ## What a reader expects -/

/-- The user's messages on the one side, the answers on the other. -/
def Source.isMessage : Source → Bool
  | .message _ => true
  | .event _ _ => false

/-- The append gives the session something to show. -/
def Append.Shown (a : Append) (sessionId : String) (source : Source) : Prop :=
  a.sessionId = sessionId ∧ a.source = some source ∧ source.content ≠ ""

/-- The database after a history, from a table without items. -/
def after (first : Nat) (history : List Append) : Db := history.foldl append ⟨[], first⟩

structure ShowsNewest (first : Nat) (history : List Append) (sessionId : String) : Prop where
  increasing : ((transcript (after first history) sessionId).map Entry.sequence).Pairwise (· < ·)
  /-- The last message of the user, and the last answer. -/
  newest : ∀ before a rest source, history = before ++ a :: rest → a.Shown sessionId source →
    (∀ b ∈ rest, ∀ other, b.Shown sessionId other → other.isMessage ≠ source.isMessage) →
    ∃ entry ∈ transcript (after first history) sessionId,
      entry.sequence = (after first before).sequence ∧ entry.content = source.content
  /-- Items are left out from the old end only. -/
  oldEnd : transcript (after first history) sessionId <:+
    ((after first history).items.filter (·.sessionId = sessionId)).filterMap Item.entry

end Zos.Jobs.Transcript
