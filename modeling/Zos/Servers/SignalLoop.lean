import Zos.Lib.Reach

/-!
# The server loops and their termination signal

`HostdServer::run` of `apps/hostd/src/server.rs` and `TermuxServer::run` of
`apps/termux/src/server.rs` turn a `select!` over their work and `shutdown_signal()`. The listener
is made in every turn and dropped when another branch is taken, before the work of that branch.
It knows the signals delivered while it is there. From the first one on the process no longer
dies of a signal.
-/

namespace Zos.Servers

open Zos.Lib

def maxConnections : Nat := 64

/-- The branches of a loop beside the signal: when one may be taken, and how many connections
there are behind it. -/
structure Loop (Branch : Type) where
  enabled : Nat → Branch → Bool
  connections : Nat → Branch → Nat

inductive HostdBranch where
  | accept
  | join
  /-- `network_recovery.tick`: takes the network lock and recovers. -/
  | recover
  deriving DecidableEq, Repr

def hostd : Loop HostdBranch where
  enabled connections
    | .accept => connections < maxConnections
    | .join => 0 < connections
    | .recover => true
  connections connections
    | .accept => connections + 1
    | .join => connections - 1
    | .recover => connections

inductive TermuxBranch where
  | accept
  | join
  /-- `reaper.tick`: asks tmux for idle sessions and ends them. -/
  | reap
  deriving DecidableEq, Repr

/-- A connection above the limit is answered and dropped. -/
def termux : Loop TermuxBranch where
  enabled connections
    | .accept => true
    | .join => 0 < connections
    | .reap => true
  connections connections
    | .accept => if connections ≥ maxConnections then connections else connections + 1
    | .join => connections - 1
    | .reap => connections

inductive Phase where
  | starting
  /-- The `select!` waits, with a listener. -/
  | selecting
  /-- The work of a branch, with its awaits. -/
  | working
  | left
  deriving DecidableEq, Repr

structure State where
  phase : Phase
  connections : Nat
  /-- The listener of this turn has seen a signal. -/
  noticed : Bool
  /-- A signal was delivered after the first registration. -/
  delivered : Bool
  /-- The process died of a signal. -/
  killed : Bool
  deriving DecidableEq, Repr

inductive Action (Branch : Type) where
  | signal
  /-- The next turn begins. -/
  | turn
  | take (branch : Branch)
  | shutdown
  /-- `accept` or the listener answers with an error, which ends the loop by `?`. -/
  | fail
  deriving DecidableEq, Repr

def State.new : State := ⟨.starting, 0, false, false, false⟩

def step {Branch : Type} (loop : Loop Branch) (s : State) (action : Action Branch) :
    Option State :=
  if s.killed then none
  else
    match action, s.phase with
    | .signal, .starting => some { s with killed := true }
    | .signal, .selecting => some { s with noticed := true, delivered := true }
    | .signal, .working => some { s with delivered := true }
    | .signal, .left => some s
    | .turn, .starting | .turn, .working => some { s with phase := .selecting, noticed := false }
    | .take branch, .selecting =>
        if loop.enabled s.connections branch then
          some { s with
            phase := .working
            connections := loop.connections s.connections branch
            noticed := false }
        else none
    | .shutdown, .selecting => if s.noticed then some { s with phase := .left } else none
    | .fail, .selecting => some { s with phase := .left }
    | _, _ => none

end Zos.Servers
