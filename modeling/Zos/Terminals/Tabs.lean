import Zos.Lib.Js
import Zos.Lib.Reach

/-!
# Terminal tabs and the sessions behind them

The tab routes of `apps/api/src/routes/terminal.ts` with
`packages/db/src/repositories/terminal-tabs.ts`, the part of `GET /api/terminal` that chooses the
session of a connection, and the names under which `terminal-sessions.ts` starts and ends it.
Titles, ordinals, times and the active tab are left out: no name depends on them.
-/

namespace Zos.Terminals.Tabs

open Zos.Lib

/-! ## Session ids -/

def hexDigit (c : Char) : Bool := ('0' ≤ c && c ≤ '9') || ('a' ≤ c && c ≤ 'f')

def dash (c : Char) : Bool := c = '-'

def version (c : Char) : Bool := '1' ≤ c && c ≤ '5'

def variant (c : Char) : Bool := ['8', '9', 'a', 'b'].contains c

def uuidShape : List (Char → Bool) :=
  List.replicate 8 hexDigit ++ dash :: List.replicate 4 hexDigit ++
    dash :: version :: List.replicate 3 hexDigit ++
    dash :: variant :: List.replicate 3 hexDigit ++
    dash :: List.replicate 12 hexDigit

def hasShape : List (Char → Bool) → List Char → Bool
  | [], [] => true
  | test :: tests, c :: cs => test c && hasShape tests cs
  | _, _ => false

def toLowerCase (value : String) : String := .ofList (value.toList.map Char.toLower)

/-- The pattern has the flag `i`. -/
def isTerminalSessionId (value : String) : Bool :=
  hasShape uuidShape (value.toList.map Char.toLower)

def normalizeSessionId (value : Option String) : Option String :=
  value.bind fun value =>
    if isTerminalSessionId (trim value) then some (toLowerCase (trim value)) else none

/-- SHA-256 of the root, a zero and the session id. The digits that are kept tell the ids of a
root apart. -/
structure Digest where
  hex : String → String → String
  separates : ∀ rootId first second, isTerminalSessionId first → isTerminalSessionId second →
    (hex rootId first).toList.take 48 = (hex rootId second).toList.take 48 → first = second

def terminalSessionName (digest : Digest) (rootId sessionId : String) : String :=
  .ofList ("zos-".toList ++ (digest.hex rootId sessionId).toList.take 48)

/-! ## The tab routes -/

structure Tab where
  id : String
  rootId : String
  deriving DecidableEq, Repr

structure Tables where
  nasRoots : List String
  /-- The roots of `terminal_tab_sets`. -/
  sets : List String
  tabs : List Tab
  deriving DecidableEq, Repr

/-- What `randomUUID` returns. -/
structure RandomId where
  id : String
  accepted : isTerminalSessionId id
  lower : toLowerCase id = id

inductive Action where
  | addRoot (id : String)
  | removeRoot (id : String)
  /-- `POST /api/terminal/tabs/initialize`. -/
  | openTabs (rootId legacySessionId : Option String) (random : RandomId)
  | create (rootId : Option String) (random : RandomId)
  | delete (id : String)

def getTerminalTab (db : Tables) (id : String) : Option Tab := db.tabs.find? (·.id = id)

def terminalRoot (db : Tables) (rootId : Option String) : Option String :=
  rootId.bind fun rootId => db.nasRoots.find? (· = trim rootId)

/-- The key of the table refuses an id that is there. -/
def insertTerminalTab (db : Tables) (rootId : String) (maxSessions : Nat)
    (requestedId : Option String) (random : RandomId) : Option Tables :=
  let id := requestedId.getD random.id
  if db.tabs.length ≥ maxSessions ∨ rootId ∉ db.sets ∨ (getTerminalTab db id).isSome then none
  else some { db with tabs := db.tabs ++ [⟨id, rootId⟩] }

def createTerminalTabSet (db : Tables) (rootId : String) : Tables :=
  { db with sets := db.sets ++ [rootId] }

def initializeTerminalTabs (db : Tables) (rootId : String) (maxSessions : Nat)
    (legacySessionId : Option String) (random : RandomId) : Option Tables :=
  if rootId ∉ db.sets then
    insertTerminalTab (createTerminalTabSet db rootId) rootId maxSessions legacySessionId random
  else
    match legacySessionId with
    | none => some db
    | some id =>
        match getTerminalTab db id with
        | some tab => if tab.rootId ≠ rootId then none else some db
        | none => insertTerminalTab db rootId maxSessions (some id) random

def createTerminalTab (db : Tables) (rootId : String) (maxSessions : Nat) (random : RandomId) :
    Option Tables :=
  let db := if rootId ∈ db.sets then db else createTerminalTabSet db rootId
  insertTerminalTab db rootId maxSessions none random

/-- The trimmed id of the body, which counts as absent when it is empty. -/
def legacyId (legacySessionId : Option String) : Option String :=
  (legacySessionId.map trim).filter (· ≠ "")

def terminalTab (db : Tables) (id : String) : Option Tab :=
  if isTerminalSessionId id then getTerminalTab db id else none

def deleteTerminalTab (db : Tables) (id : String) : Tables :=
  { db with tabs := db.tabs.filter (·.id ≠ id) }

/-- A request that is refused changes no table. -/
def step (maxSessions : Nat) (db : Tables) : Action → Option Tables
  | .addRoot id => if id ∈ db.nasRoots then none else some { db with nasRoots := id :: db.nasRoots }
  | .removeRoot id =>
      some ⟨db.nasRoots.filter (· ≠ id), db.sets.filter (· ≠ id), db.tabs.filter (·.rootId ≠ id)⟩
  | .openTabs rootId legacySessionId random =>
      (terminalRoot db rootId).bind fun root =>
        let legacy := legacyId legacySessionId
        if legacy.any (! isTerminalSessionId ·) then none
        else initializeTerminalTabs db root maxSessions legacy random
  | .create rootId random =>
      (terminalRoot db rootId).bind fun root => createTerminalTab db root maxSessions random
  | .delete id => (terminalTab db id).map fun tab => deleteTerminalTab db tab.id

/-- The session `sessions.destroy` ends for a request to delete or to restart a tab. -/
def destroyedSession (digest : Digest) (db : Tables) (id : String) : Option String :=
  (terminalTab db id).map fun tab => terminalSessionName digest tab.rootId tab.id

/-! ## The web-socket route -/

inductive Header where
  | absent
  | one (value : String)
  | several (values : List String)
  deriving DecidableEq, Repr

structure Request where
  rootId : Option String
  sessionId : Option String
  nextSessionId : Option String
  reset : Option String
  protocols : Header
  originAllowed : Bool
  deriving DecidableEq, Repr

structure TerminalProtocolData where
  sessionId : Option String
  resetSessionId : Option String
  nextSessionId : Option String
  reset : Bool
  deriving DecidableEq, Repr

/-- The text behind a tag. -/
def tagged (tag text : String) : Option String :=
  if tag.toList.isPrefixOf text.toList then some (.ofList (text.toList.drop tag.length)) else none

def Header.protocols : Header → List String
  | .absent => []
  | .one value => if value = "" then [] else value.splitOn ","
  | .several values => values

def parseTerminalProtocol (header : Header) : TerminalProtocolData :=
  (header.protocols.map trim).foldl (fun result protocol =>
    match tagged "zos-session." protocol with
    | some id => { result with sessionId := some id }
    | none =>
        match tagged "zos-reset." protocol with
        | some id => { result with resetSessionId := some id, reset := true }
        | none =>
            match tagged "zos-next." protocol with
            | some id => { result with nextSessionId := some id, reset := true }
            | none => result) ⟨none, none, none, false⟩

def Request.shouldReset (request : Request) : Bool :=
  (parseTerminalProtocol request.protocols).reset || request.reset = some "1"

def Request.requestedSessionId (request : Request) : Option String :=
  (parseTerminalProtocol request.protocols).sessionId <|> request.sessionId

def Request.next (request : Request) : Option String :=
  (parseTerminalProtocol request.protocols).nextSessionId <|> request.nextSessionId

/-- The session that a reset closes. -/
def Request.closes (request : Request) : Option String :=
  (parseTerminalProtocol request.protocols).resetSessionId <|> request.sessionId

/-- The id a connection acquires its session by. -/
def Request.target (request : Request) : Option String :=
  if request.shouldReset then request.next else request.requestedSessionId

structure Connected where
  rootId : String
  sessionId : String
  persistent : Bool
  deriving DecidableEq, Repr

def tabOf (db : Tables) (id : Option String) : Option Tab :=
  (id.filter (· ≠ "")).bind (getTerminalTab db)

structure Session where
  rootId : String
  persistent : Bool
  deriving DecidableEq, Repr

/-- `TerminalSessionManager`: the open sessions by their ids, and with which flag a session is being
made, by root and id. -/
structure Manager where
  sessions : String → Option Session
  pending : String → String → Option Bool

/-- `close` and `cancelPending` of `reset`. -/
def Manager.close (manager : Manager) (rootId : String) (id : Option String) : Manager :=
  match id.filter (· ≠ "") with
  | none => { manager with
      pending := fun root other => if root = rootId then none else manager.pending root other }
  | some id => {
      sessions := fun other =>
        if other = id ∧ (manager.sessions other).any (·.rootId = rootId) then none
        else manager.sessions other
      pending := fun root other =>
        if root = rootId ∧ other = id then none else manager.pending root other }

/-- The flag of a session that is there already. -/
def Manager.flag (manager : Manager) (rootId id : String) : Option Bool :=
  ((manager.sessions id).map Session.persistent).or (manager.pending rootId id)

/-- The flag of the session that is acquired; that there may be too many is left out. -/
def Manager.acquire (manager : Manager) (rootId id : String) (persistent : Bool) : Option Bool :=
  if (manager.sessions id).any (·.rootId ≠ rootId) then none
  else some ((manager.flag rootId id).getD persistent)

/-- The sessions that `acquire` looks at. -/
def Request.manager (request : Request) (manager : Manager) (rootId : String) : Manager :=
  if request.shouldReset then manager.close rootId request.closes else manager

/-- Up to `acquire`, with the id that it makes of the one requested. -/
def connect (db : Tables) (manager : Manager) (request : Request) (random : RandomId) :
    Option Connected :=
  ((request.rootId.filter (· ≠ "")).bind fun id => db.nasRoots.find? (· = id)).bind fun root =>
    let requestedTab := tabOf db request.requestedSessionId
    let nextTab := tabOf db request.next
    if requestedTab.any (·.rootId ≠ root) || nextTab.any (·.rootId ≠ root) then none
    else if ! request.originAllowed then none
    else
      let persistent :=
        if request.shouldReset then nextTab.any (·.rootId = root)
        else requestedTab.any (·.rootId = root)
      let id := (normalizeSessionId request.target).getD random.id
      ((request.manager manager root).acquire root id persistent).map fun persistent =>
        ⟨root, id, persistent⟩

def attachedSession (digest : Digest) (connected : Connected) : String :=
  terminalSessionName digest connected.rootId connected.sessionId

end Zos.Terminals.Tabs
