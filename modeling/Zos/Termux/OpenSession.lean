import Zos.Lib.Reach
import Zos.Termux.Frames

/-!
# The loop of an open terminal session

`run_open_session` of `apps/termux/src/server.rs` once the client has its stream, with a client
that reads and sends no frames. The child writes to its PTY until it exits. What it has written
and the broker has not read stays queued in the PTY; the PTY reports the hang-up of an exited child
only behind that. The loop takes any branch that is ready, so the order is the schedule's.
-/

namespace Zos.Termux.OpenSession

open Zos.Lib
open Zos.Termux.Frames (Bytes)

def maxOutputBytes : Nat := 24 * 1024

structure ExitStatus where
  code : Option Int
  signal : Option Int
  deriving DecidableEq, Repr

inductive Event where
  | output (bytes : Bytes)
  | exit (exitCode : Int) (signal : Option Int) (recoverable : Bool)
  deriving DecidableEq, Repr

structure State where
  /-- All that the child has written. -/
  written : Bytes
  queued : Bytes
  status : Option ExitStatus
  running : Bool
  events : List Event
  deriving DecidableEq, Repr

inductive Action where
  | write (bytes : Bytes)
  | exit (status : ExitStatus)
  /-- `read_chunk` returns this many bytes. -/
  | read (count : Nat)
  /-- `read_chunk` returns nothing or `EIO`, and the child is waited for. -/
  | hangUp (recoverable : Bool)
  /-- `child.wait` is ready. -/
  | wait (recoverable : Bool)
  | shutdown
  deriving DecidableEq, Repr

def State.new : State := ⟨[], [], none, true, []⟩

/-- `recoverable` is what tmux says about the session. -/
def sendExit (s : State) (recoverable : Bool) (status : ExitStatus) : State :=
  let exitCode := status.code.getD (128 + status.signal.getD 0)
  { s with running := false, events := s.events ++ [.exit exitCode status.signal recoverable] }

def step (s : State) : Action → Option State
  | .write bytes =>
      if s.status.isSome then none
      else some { s with written := s.written ++ bytes, queued := s.queued ++ bytes }
  | .exit status => if s.status.isSome then none else some { s with status := some status }
  | .read count =>
      if s.running ∧ 0 < count ∧ count ≤ maxOutputBytes ∧ count ≤ s.queued.length then
        some { s with
          queued := s.queued.drop count
          events := s.events ++ [.output (s.queued.take count)] }
      else none
  | .hangUp recoverable =>
      if s.running ∧ s.queued = [] then s.status.map (sendExit s recoverable) else none
  | .wait recoverable => if s.running then s.status.map (sendExit s recoverable) else none
  | .shutdown => if s.running then some { s with running := false } else none

end Zos.Termux.OpenSession
