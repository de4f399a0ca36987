import Mathlib.Data.List.Nodup
import Zos.Lib.Number

/-!
# Terminal sessions

`TmuxManager` of `apps/termux/src/tmux.rs` over a tmux server, which holds
sessions with unique names and user options. What the target of a command means
is up to tmux: `Lookup` asks only that the name of a session means that session.
`exactLookup` finds nothing else. `documentedLookup` goes on as tmux documents it,
to the only session whose name begins with the target and then to the only one
that the target matches as a pattern; where several would do there is none.

Every operation holds the command lock from its first command to its last, so an
operation is one step of the server. `touched` collects the sessions that the
targets of its commands came to mean; `list-sessions` has no target. Commands that
tmux can carry out succeed.
-/

namespace Zos.Termux

structure Session where
  name : String
  attached : Nat
  options : List (String × String)
  size : Nat × Nat
  /-- Started by a `new-session` of this program. -/
  ours : Bool
  deriving DecidableEq, Repr

/-- What `new-session` starts. -/
def Session.new (name : String) : Session := ⟨name, 0, [], (80, 24), true⟩

@[ext]
structure Server where
  sessions : List Session
  names : (sessions.map (·.name)).Nodup

def Server.empty : Server := ⟨[], List.nodup_nil⟩

/-- How a target is matched as a pattern. Without special characters it matches
itself only. -/
structure Glob where
  test : String → String → Bool
  literal : ∀ pattern name, (∀ c ∈ pattern.toList, c.isAlphanum ∨ c = '_' ∨ c = '-') →
    test pattern name = true → name = pattern

/-! ## Targets -/

def Server.find (server : Server) (name : String) : Option Session :=
  server.sessions.find? (·.name = name)

theorem Server.find_of_mem {server : Server} {session : Session}
    (h : session ∈ server.sessions) : server.find session.name = some session := by
  obtain ⟨found, hfound⟩ : ∃ found, server.find session.name = some found := by
    rw [← Option.isSome_iff_exists, Server.find, List.find?_isSome]
    exact ⟨session, h, by simp⟩
  have hname : found.name = session.name := by simpa using List.find?_some hfound
  rw [hfound, List.inj_on_of_nodup_map server.names (List.mem_of_find?_eq_some hfound) h hname]

/-- What the target of a command means. -/
structure Lookup where
  run : Server → String → Option Session
  mem : ∀ {server target session}, run server target = some session →
    session ∈ server.sessions
  named : ∀ {server session}, session ∈ server.sessions →
    run server session.name = some session

def exactLookup : Lookup where
  run := Server.find
  mem := List.mem_of_find?_eq_some
  named := Server.find_of_mem

def onlyOne : List Session → Option Session
  | [session] => some session
  | _ => none

theorem onlyOne_eq_some {sessions : List Session} {session : Session} :
    onlyOne sessions = some session ↔ sessions = [session] := by
  unfold onlyOne
  split <;> simp_all

def Server.startingWith (server : Server) (target : String) : List Session :=
  server.sessions.filter fun session => target.toList.isPrefixOf session.name.toList

def Server.matching (glob : Glob) (server : Server) (target : String) : List Session :=
  server.sessions.filter fun session => glob.test target session.name

def documentedLookup (glob : Glob) : Lookup where
  run server target :=
    match server.find target with
    | some session => some session
    | none =>
        if server.startingWith target = [] then onlyOne (server.matching glob target)
        else onlyOne (server.startingWith target)
  mem {server target session} h := by
    split at h
    · next hfind => exact List.mem_of_find?_eq_some (hfind.trans h)
    · split at h
      · rw [onlyOne_eq_some] at h
        exact List.mem_of_mem_filter (h ▸ List.mem_singleton_self session)
      · rw [onlyOne_eq_some] at h
        exact List.mem_of_mem_filter (h ▸ List.mem_singleton_self session)
  named {server session} h := by
    simp only [Server.find_of_mem h]

/-! ## Commands -/

def Session.setOption (session : Session) (option value : String) : Session :=
  { session with options := (option, value) :: session.options.filter (·.1 ≠ option) }

theorem Session.setOption_name (session : Session) (option value : String) :
    (session.setOption option value).name = session.name :=
  rfl

def Session.option (session : Session) (option : String) : Option String :=
  session.options.lookup option

/-- A change to the session with this name. -/
def Server.modify (server : Server) (name : String) (f : Session → Session)
    (hf : ∀ session, (f session).name = session.name) : Server where
  sessions := server.sessions.map fun session => if session.name = name then f session else session
  names := by
    have hnames : ((server.sessions.map fun session =>
        if session.name = name then f session else session).map (·.name)) =
        server.sessions.map (·.name) := by
      rw [List.map_map]
      refine List.map_congr_left fun session _ => ?_
      simp only [Function.comp_apply]
      split
      · exact hf session
      · rfl
    rw [hnames]
    exact server.names

/-- A client of the session ends. -/
def Server.detach (server : Server) (name : String) : Server :=
  server.modify name (fun session => { session with attached := session.attached - 1 })
    fun _ => rfl

def Server.kill (server : Server) (name : String) : Server where
  sessions := server.sessions.filter (·.name ≠ name)
  names := server.names.sublist (List.filter_sublist.map _)

/-- `new-session -d -s name`; with a name that is taken it fails. -/
def Server.newSession (server : Server) (name : String) : Option Server :=
  if h : name ∉ server.sessions.map (·.name) then
    some {
      sessions := server.sessions ++ [Session.new name]
      names := by
        rw [List.map_append, List.nodup_append]
        refine ⟨server.names, by simp, fun n hn n' hn' heq => h ?_⟩
        rw [List.map_singleton, List.mem_singleton] at hn'
        have hname : n = name := heq.trans hn'
        exact hname ▸ hn }
  else none

/-! ## Policy -/

structure ManagedSession where
  name : String
  attached : Nat
  detachedAtMs : Nat
  persistent : Bool
  deriving DecidableEq, Repr

def isManagedName (name : String) : Bool :=
  "zos-".toList.isPrefixOf name.toList &&
    name.toList.all fun c => c.isLower || c.isDigit || c = '_' || c = '-'

/-- `#{@zos_detached_at}`; an option that is not set is printed as nothing. -/
def parseMillis (value : Option String) : Nat :=
  (Lib.parseUnsigned 64 (value.getD "")).getD 0

def Session.managed (session : Session) : Option ManagedSession :=
  if session.option "@zos_managed" = some "1" ∧ isManagedName session.name then
    some ⟨session.name, session.attached, parseMillis (session.option "@zos_detached_at"),
      session.option "@zos_persistent" = some "1"⟩
  else none

def Server.listManaged (server : Server) : List ManagedSession :=
  server.sessions.filterMap Session.managed

def ManagedSession.evictable (session : ManagedSession) : Bool :=
  !session.persistent && session.attached = 0 && 0 < session.detachedAtMs

/-- A turn of `min_by_key`, which keeps the first of equal ones. -/
def earlier : Option ManagedSession → ManagedSession → Option ManagedSession
  | none, session => some session
  | some best, session =>
      if session.detachedAtMs < best.detachedAtMs then some session else some best

def evictionCandidate (sessions : List ManagedSession) : Option ManagedSession :=
  (sessions.filter ManagedSession.evictable).foldl earlier none

def shouldReap (session : ManagedSession) (nowMs idleTimeoutMs : Nat) : Bool :=
  session.evictable && idleTimeoutMs ≤ nowMs - session.detachedAtMs

/-! ## Operations -/

inductive ErrorCode where
  | sessionLimit
  | operationFailed
  | timeout
  deriving DecidableEq, Repr

structure TermuxError where
  status : Nat
  code : ErrorCode
  message : String
  retryable : Bool
  deriving DecidableEq, Repr

def TermuxError.sessionLimit : TermuxError :=
  ⟨429, .sessionLimit, "Terminal session limit reached", true⟩

def TermuxError.operationFailed (message : String) : TermuxError :=
  ⟨502, .operationFailed, message, false⟩

def TermuxError.timeout (message : String) : TermuxError := ⟨504, .timeout, message, true⟩

inductive Command where
  | newSession | setOption | resizeWindow | attachSession | killSession
  deriving DecidableEq, Repr

def containsText (text part : String) : Bool :=
  text.toList.tails.any part.toList.isPrefixOf

def isMissingSession (stderr : String) : Bool :=
  containsText stderr "can't find session" || containsText stderr "no server running" ||
    containsText stderr "No such file or directory"

/-- The text is trimmed, as `stderr` is here. -/
def commandError (context stderr : String) : TermuxError :=
  .operationFailed (if stderr = "" then context else context ++ ": " ++ stderr)

structure Outcome where
  result : Except TermuxError Unit
  server : Server
  touched : List String

structure Manager where
  lookup : Lookup
  maxSessions : Nat
  /-- What tmux prints when it cannot carry a command out on a target. -/
  stderr : Command → String → String
  missing : ∀ target, isMissingSession (stderr .killSession target) = true

section

variable (manager : Manager)

/-- `run_checked_unlocked`, after tmux has refused. -/
def refused (server : Server) (command : Command) (target : String) : Outcome :=
  ⟨.error (commandError "tmux command failed" (manager.stderr command target)), server, []⟩

/-- `set-option -t name option value`. -/
def setOption (server : Server) (name option value : String) : Outcome :=
  match manager.lookup.run server name with
  | some session =>
      ⟨.ok (), server.modify session.name (·.setOption option value)
        (·.setOption_name option value), [session.name]⟩
  | none => refused manager server .setOption name

/-- The second operation is run when the first has succeeded. -/
def Outcome.andThen (outcome : Outcome) (next : Server → Outcome) : Outcome :=
  match outcome.result with
  | .ok () =>
      let after := next outcome.server
      { after with touched := outcome.touched ++ after.touched }
  | .error _ => outcome

/-- The three options of a session that is opened. -/
def setOpened (server : Server) (name : String) (persistent : Bool) : Outcome :=
  ((setOption manager server name "@zos_managed" "1").andThen fun server =>
    setOption manager server name "@zos_persistent" (if persistent then "1" else "0")).andThen
      fun server => setOption manager server name "@zos_detached_at" "0"

/-- `kill-session`; a session that cannot be found is gone. -/
def destroy (server : Server) (name : String) : Outcome :=
  match manager.lookup.run server name with
  | some session => ⟨.ok (), server.kill session.name, [session.name]⟩
  | none =>
      let stderr := manager.stderr .killSession name
      if isMissingSession stderr then ⟨.ok (), server, []⟩
      else ⟨.error (commandError "Unable to destroy tmux session" stderr), server, []⟩

/-- The end of `ensure_session`, when there is room. -/
def createSession (server : Server) (name : String) (persistent : Bool) : Outcome :=
  match server.newSession name with
  | none => refused manager server .newSession name
  | some server =>
      let opened := setOpened manager server name persistent
      match opened.result with
      | .ok () => opened
      | .error error =>
          let removed := destroy manager opened.server name
          ⟨.error error, removed.server, opened.touched ++ removed.touched⟩

def ensureSession (server : Server) (name : String) (persistent : Bool) : Outcome :=
  match manager.lookup.run server name with
  | some session =>
      let opened := setOpened manager server name persistent
      { opened with touched := session.name :: opened.touched }
  | none =>
      let sessions := server.listManaged
      if manager.maxSessions ≤ sessions.length then
        match evictionCandidate sessions with
        | none => ⟨.error .sessionLimit, server, []⟩
        | some candidate => (destroy manager server candidate.name).andThen fun server =>
            createSession manager server name persistent
      else createSession manager server name persistent

def markAttached (server : Server) (name : String) : Outcome :=
  setOption manager server name "@zos_detached_at" "0"

def markDetached (server : Server) (name : String) (nowMs : Nat) : Outcome :=
  match manager.lookup.run server name with
  | some session =>
      let marked := setOption manager server name "@zos_detached_at" (toString nowMs)
      { marked with touched := session.name :: marked.touched }
  | none => ⟨.ok (), server, []⟩

/-- `resize-window -t name -x cols -y rows`. -/
def resize (server : Server) (name : String) (cols rows : Nat) : Outcome :=
  match manager.lookup.run server name with
  | some session =>
      ⟨.ok (), server.modify session.name (fun s => { s with size := (cols, rows) }) fun _ => rfl,
        [session.name]⟩
  | none => refused manager server .resizeWindow name

/-- What the client of `attach_command` does. -/
def attach (server : Server) (name : String) : Outcome :=
  match manager.lookup.run server name with
  | some session =>
      ⟨.ok (), server.modify session.name (fun s => { s with attached := s.attached + 1 })
        fun _ => rfl, [session.name]⟩
  | none => refused manager server .attachSession name

/-- The loop of `reap_expired` over the sessions that were listed. -/
def reap (server : Server) (nowMs idleTimeoutMs : Nat) : List ManagedSession → Server
  | [] => server
  | session :: rest =>
      if shouldReap session nowMs idleTimeoutMs then
        reap (destroy manager server session.name).server nowMs idleTimeoutMs rest
      else reap server nowMs idleTimeoutMs rest

def reapExpired (server : Server) (nowMs idleTimeoutMs : Nat) : Server :=
  reap manager server nowMs idleTimeoutMs server.listManaged

/-- The operations on one session. -/
inductive Request where
  | ensureSession (persistent : Bool)
  | attach
  | resize (cols rows : Nat)
  | markAttached
  | markDetached (nowMs : Nat)
  | destroy
  deriving DecidableEq, Repr

def Request.perform (server : Server) (name : String) : Request → Outcome
  | .ensureSession persistent => Termux.ensureSession manager server name persistent
  | .attach => Termux.attach manager server name
  | .resize cols rows => Termux.resize manager server name cols rows
  | .markAttached => Termux.markAttached manager server name
  | .markDetached nowMs => Termux.markDetached manager server name nowMs
  | .destroy => Termux.destroy manager server name

end

/-! ## Names -/

/-- `validate_session_name`; lengths are in bytes, and the characters it lets
through are one byte each. -/
def validateSessionName (name : String) : Bool :=
  name ≠ "" && name.utf8ByteSize ≤ 96 &&
    name.toList.all fun c => c.isAlphanum || c = '_' || c = '-'

end Zos.Termux
