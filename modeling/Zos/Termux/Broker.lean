import Zos.Termux.Tmux

/-!
# The terminal broker

`TermuxServer` of `apps/termux/src/server.rs`: connections that each carry one
request. A connection that opens a session takes its name in `attachments`, runs
`ensure_session`, starts a tmux client on a terminal of its own, marks the session
attached and serves frames until one of them closes the session, the client exits
or the peer goes away; then it ends the client, marks the session detached and
gives the name back. Any number of connections go through these points at the same
time, and the reaper runs between them.

A request of another user, or with a name that the protocol refuses, changes
nothing and is left out. A session may also end on its own, when its shell exits.
-/

namespace Zos.Termux

def maxConnections : Nat := 64

structure SessionLifecycle where
  childExited : Bool := false
  destroyed : Bool := false
  detached : Bool := false
  deriving DecidableEq, Repr

def SessionLifecycle.shouldTerminateChild (lifecycle : SessionLifecycle) : Bool :=
  !lifecycle.childExited

def SessionLifecycle.shouldMarkDetached (lifecycle : SessionLifecycle) : Bool :=
  !lifecycle.destroyed && !lifecycle.detached

/-- Where `run_open_session` stands. -/
inductive Phase where
  | ensuring (persistent : Bool)
  | spawning
  | marking
  | serving
  /-- After the loop, with the client still to be ended. -/
  | terminating (lifecycle : SessionLifecycle)
  | detaching (lifecycle : SessionLifecycle)
  | closed
  deriving DecidableEq, Repr

structure Connection where
  name : String
  phase : Phase
  deriving DecidableEq, Repr

structure Broker where
  server : Server
  attachments : List String
  connections : List Connection

inductive BrokerAction where
  | openSession (sessionName : Option String) (uuid : List (Fin 16)) (persistent : Bool)
  | ensure (i : Nat)
  | spawn (i : Nat) (succeeds : Bool)
  | markAttached (i : Nat)
  | resize (i cols rows : Nat)
  | close (i : Nat) (destroyed : Bool) (nowMs : Nat)
  /-- The peer has gone, a frame was refused or the broker shuts down. -/
  | hangUp (i : Nat)
  | childExits (i : Nat)
  | terminate (i : Nat)
  | markDetached (i : Nat) (nowMs : Nat)
  | destroySession (name : String)
  | reap (nowMs : Nat)
  | sessionEnds (name : String)
  deriving DecidableEq, Repr

def hexDigit (d : Fin 16) : Char :=
  "0123456789abcdef".toList.getD d.val '0'

/-- `format!("zos-{}", Uuid::new_v4().simple())`. -/
def generatedName (uuid : List (Fin 16)) : String :=
  String.ofList ("zos-".toList ++ uuid.map hexDigit)

def Broker.active (broker : Broker) : Nat :=
  broker.connections.countP (·.phase ≠ .closed)

def Broker.setPhase (broker : Broker) (i : Nat) (connection : Connection) (phase : Phase) :
    Broker :=
  { broker with connections := broker.connections.set i { connection with phase := phase } }

/-- The end of `handle_connection`. -/
def Broker.release (broker : Broker) (i : Nat) (connection : Connection) : Broker :=
  { broker.setPhase i connection .closed with
    attachments := broker.attachments.filter (· ≠ connection.name) }

/-- The phase after an operation that leaves the loop when it fails. -/
def Outcome.phase (outcome : Outcome) (phase : Phase) : Phase :=
  match outcome.result with
  | .ok () => phase
  | .error _ => .terminating {}

/-- One step of the connection, in the phase it is in. -/
def Connection.step (manager : Manager) (broker : Broker) (connection : Connection) :
    BrokerAction → Option Broker
  | .ensure i =>
      match connection.phase with
      | .ensuring persistent =>
          let outcome := ensureSession manager broker.server connection.name persistent
          let broker := { broker with server := outcome.server }
          match outcome.result with
          | .ok () => some (broker.setPhase i connection .spawning)
          | .error _ => some (broker.release i connection)
      | _ => none
  | .spawn i succeeds =>
      if connection.phase = .spawning then
        if succeeds then
          let outcome := attach manager broker.server connection.name
          some ({ broker with server := outcome.server }.setPhase i connection .marking)
        else some (broker.release i connection)
      else none
  | .markAttached i =>
      if connection.phase = .marking then
        let outcome := markAttached manager broker.server connection.name
        some ({ broker with server := outcome.server }.setPhase i connection
          (outcome.phase .serving))
      else none
  | .resize i cols rows =>
      if connection.phase = .serving then
        let outcome := resize manager broker.server connection.name cols rows
        some ({ broker with server := outcome.server }.setPhase i connection
          (outcome.phase .serving))
      else none
  | .close i destroyed nowMs =>
      if connection.phase = .serving then
        let outcome :=
          if destroyed then destroy manager broker.server connection.name
          else markDetached manager broker.server connection.name nowMs
        some ({ broker with server := outcome.server }.setPhase i connection
          (outcome.phase (.terminating { destroyed := destroyed, detached := !destroyed })))
      else none
  | .hangUp i =>
      if connection.phase = .serving then
        some (broker.setPhase i connection (.terminating {}))
      else none
  | .childExits i =>
      if connection.phase = .serving then
        some ({ broker with server := broker.server.detach connection.name }.setPhase i connection
          (.detaching { childExited := true }))
      else none
  | .terminate i =>
      match connection.phase with
      | .terminating lifecycle =>
          some ({ broker with server := broker.server.detach connection.name }.setPhase i
            connection (.detaching lifecycle))
      | _ => none
  | .markDetached i nowMs =>
      match connection.phase with
      | .detaching lifecycle =>
          if lifecycle.shouldMarkDetached then
            let outcome := markDetached manager broker.server connection.name nowMs
            some ({ broker with server := outcome.server }.release i connection)
          else some (broker.release i connection)
      | _ => none
  | _ => none

def BrokerAction.connection : BrokerAction → Option Nat
  | .ensure i | .spawn i _ | .markAttached i | .resize i _ _ | .close i _ _ | .hangUp i
  | .childExits i | .terminate i | .markDetached i _ => some i
  | _ => none

def Broker.step (manager : Manager) (idleTimeoutMs : Nat) (broker : Broker)
    (action : BrokerAction) : Option Broker :=
  match action with
  | .openSession sessionName uuid persistent =>
      let name := sessionName.getD (generatedName uuid)
      if (∀ given ∈ sessionName, validateSessionName given) ∧ broker.active < maxConnections then
        -- a name that is attached already is answered with a conflict
        if name ∈ broker.attachments then some broker
        else some { broker with
          attachments := name :: broker.attachments
          connections := broker.connections ++ [⟨name, .ensuring persistent⟩] }
      else none
  | .destroySession name =>
      if validateSessionName name then
        some { broker with server := (destroy manager broker.server name).server }
      else none
  | .reap nowMs =>
      some { broker with server := reapExpired manager broker.server nowMs idleTimeoutMs }
  | .sessionEnds name => some { broker with server := broker.server.kill name }
  | action =>
      action.connection.bind fun i =>
        broker.connections[i]?.bind fun connection => connection.step manager broker action

end Zos.Termux
