import Zos.Lib.Keyed
import Zos.Lib.Reach
import Zos.Proofs.TmuxSteps
import Zos.Termux.Broker

/-!
# The session limit

`ensure_session` counts the sessions it finds listed as managed, and a listed
session has a name that begins with `zos-` and holds no capital letter. The
protocol accepts other names too: their sessions are made, marked and never
counted. Where the names that are asked for are managed ones, and a name that
exists is that of a session the broker made, every session it made is listed, and
the list never gets longer than the limit.

Nothing but `ensure_session` marks a session as managed. What all the other steps
do to the server is `Quiet`: they kill sessions, or change one in a way that
neither the list nor the count can see.
-/

namespace Zos.Termux

open Zos.Lib

/-! ## The list -/

theorem Session.managed_isSome {session : Session} :
    session.managed.isSome = true ↔
      session.option "@zos_managed" = some "1" ∧ isManagedName session.name = true := by
  rw [Session.managed]
  split
  · next h => exact iff_of_true rfl h
  · next h => exact iff_of_false (by simp) h

theorem Session.managed_isSome_congr {before after : Session} (hname : after.name = before.name)
    (hoption : after.option "@zos_managed" = before.option "@zos_managed") :
    after.managed.isSome = before.managed.isSome := by
  rw [Bool.eq_iff_iff, Session.managed_isSome, Session.managed_isSome, hname, hoption]

theorem Session.option_setOption {session : Session} {option other value : String} :
    (session.setOption option value).option other =
      if other = option then some value else session.option other :=
  lookup_replace session.options option other value

theorem Session.opened_managed {session : Session} {persistent : Bool} :
    (session.opened persistent).managed.isSome = isManagedName session.name := by
  rw [Bool.eq_iff_iff, Session.managed_isSome, Session.opened, Session.option_setOption,
    Session.option_setOption, Session.option_setOption]
  simp [Session.setOption_name]

theorem length_listManaged (server : Server) :
    server.listManaged.length = server.sessions.countP (·.managed.isSome) :=
  List.length_filterMap_eq_countP

/-! ## Quiet changes -/

inductive Quiet : Server → Server → Prop where
  | refl (server : Server) : Quiet server server
  | kill (server : Server) (name : String) : Quiet server (server.kill name)
  | modify {server after : Server} {name : String} {f : Session → Session}
      (change : after.sessions = server.sessions.map fun s => if s.name = name then f s else s)
      (ours : ∀ s, (f s).ours = s.ours)
      (managed : ∀ s, (f s).managed.isSome = s.managed.isSome) : Quiet server after
  | trans {a b c : Server} (hab : Quiet a b) (hbc : Quiet b c) : Quiet a c

section

variable (manager : Manager) (server : Server) (name : String)

theorem destroy_quiet : Quiet server (destroy manager server name).server := by
  cases hfound : manager.lookup.run server name with
  | none =>
      rw [destroy_of_missing hfound]
      exact .refl server
  | some session =>
      rw [destroy, hfound]
      exact .kill server session.name

theorem setOption_quiet {option : String} (value : String) (h : option ≠ "@zos_managed") :
    Quiet server (setOption manager server name option value).server := by
  rw [setOption]
  split
  · refine .modify rfl (fun _ => rfl) fun s => Session.managed_isSome_congr rfl ?_
    rw [Session.option_setOption, if_neg h.symm]
  · exact .refl server

theorem markAttached_quiet : Quiet server (markAttached manager server name).server :=
  setOption_quiet manager server name "0" (by decide)

theorem markDetached_quiet (nowMs : Nat) :
    Quiet server (markDetached manager server name nowMs).server := by
  rw [markDetached]
  split
  · exact setOption_quiet manager server name (toString nowMs) (by decide)
  · exact .refl server

theorem resize_quiet (cols rows : Nat) :
    Quiet server (resize manager server name cols rows).server := by
  rw [resize]
  split
  · exact .modify rfl (fun _ => rfl) fun _ => Session.managed_isSome_congr rfl rfl
  · exact .refl server

theorem attach_quiet : Quiet server (attach manager server name).server := by
  rw [attach]
  split
  · exact .modify rfl (fun _ => rfl) fun _ => Session.managed_isSome_congr rfl rfl
  · exact .refl server

theorem detach_quiet : Quiet server (server.detach name) :=
  .modify rfl (fun _ => rfl) fun _ => Session.managed_isSome_congr rfl rfl

theorem reap_quiet (nowMs idleTimeoutMs : Nat) (sessions : List ManagedSession) :
    Quiet server (reap manager server nowMs idleTimeoutMs sessions) := by
  induction sessions generalizing server with
  | nil => exact .refl server
  | cons session rest ih =>
      rw [reap]
      split
      · exact (destroy_quiet manager server session.name).trans (ih _)
      · exact ih server

end

/-! ## Steps of the broker -/

theorem setPhase_name {connections : List Connection} {i : Nat} {connection c : Connection}
    {phase : Phase} (hi : connections[i]? = some connection)
    (h : c ∈ connections.set i { connection with phase := phase }) :
    ∃ before ∈ connections, before.name = c.name := by
  rcases List.mem_or_eq_of_mem_set h with hmem | rfl
  · exact ⟨c, hmem, rfl⟩
  · exact ⟨connection, List.mem_of_getElem? hi, rfl⟩

/-- Everything a step can do to the sessions and to the names in use. -/
inductive Broker.Effect (manager : Manager) (broker : Broker) : BrokerAction → Broker → Prop where
  | opened {sessionName : Option String} {uuid : List (Fin 16)} {persistent : Bool}
      {after : Broker} (server : after.server = broker.server)
      (names : ∀ c ∈ after.connections, c ∈ broker.connections ∨
        c.name = sessionName.getD (generatedName uuid)) :
      Effect manager broker (.openSession sessionName uuid persistent) after
  | ensured {i : Nat} {connection : Connection} {after : Broker} (persistent : Bool)
      (hi : broker.connections[i]? = some connection)
      (server : after.server =
        (ensureSession manager broker.server connection.name persistent).server)
      (names : ∀ c ∈ after.connections, ∃ before ∈ broker.connections, before.name = c.name) :
      Effect manager broker (.ensure i) after
  | quiet {action : BrokerAction} {after : Broker} (server : Quiet broker.server after.server)
      (names : ∀ c ∈ after.connections, ∃ before ∈ broker.connections, before.name = c.name) :
      Effect manager broker action after

/-- A change of the server and of the phase of one connection. -/
theorem Broker.Effect.of_setPhase {manager : Manager} {broker : Broker} {action : BrokerAction}
    {i : Nat} {connection : Connection} {server : Server} {attachments : List String}
    {phase : Phase} (hi : broker.connections[i]? = some connection)
    (hserver : Quiet broker.server server) :
    Broker.Effect manager broker action
      ⟨server, attachments, broker.connections.set i { connection with phase := phase }⟩ :=
  .quiet hserver fun _ hc => setPhase_name hi hc

theorem Connection.step_effect {manager : Manager} {broker after : Broker}
    {connection : Connection} {action : BrokerAction} {i : Nat}
    (haction : action.connection = some i) (hi : broker.connections[i]? = some connection)
    (h : connection.step manager broker action = some after) :
    Broker.Effect manager broker action after := by
  cases action with
  | ensure j =>
      cases haction
      simp only [Connection.step] at h
      split at h
      · next persistent _ =>
          split at h
          · cases h
            exact .ensured persistent hi rfl fun _ hc => setPhase_name hi hc
          · cases h
            exact .ensured persistent hi rfl fun _ hc => setPhase_name hi hc
      · cases h
  | spawn j succeeds =>
      cases haction
      simp only [Connection.step] at h
      split at h
      · split at h
        · cases h
          exact .of_setPhase hi (attach_quiet manager _ _)
        · cases h
          exact .of_setPhase hi (.refl _)
      · cases h
  | markAttached j =>
      cases haction
      simp only [Connection.step] at h
      split at h
      · cases h
        exact .of_setPhase hi (markAttached_quiet manager _ _)
      · cases h
  | resize j cols rows =>
      cases haction
      simp only [Connection.step] at h
      split at h
      · cases h
        exact .of_setPhase hi (resize_quiet manager _ _ cols rows)
      · cases h
  | close j destroyed nowMs =>
      cases haction
      simp only [Connection.step] at h
      split at h
      · cases h
        refine .of_setPhase hi ?_
        split
        · exact destroy_quiet manager _ _
        · exact markDetached_quiet manager _ _ nowMs
      · cases h
  | hangUp j =>
      cases haction
      simp only [Connection.step] at h
      split at h
      · cases h
        exact .of_setPhase hi (.refl _)
      · cases h
  | childExits j =>
      cases haction
      simp only [Connection.step] at h
      split at h
      · cases h
        exact .of_setPhase hi (detach_quiet _ _)
      · cases h
  | terminate j =>
      cases haction
      simp only [Connection.step] at h
      split at h
      · cases h
        exact .of_setPhase hi (detach_quiet _ _)
      · cases h
  | markDetached j nowMs =>
      cases haction
      simp only [Connection.step] at h
      split at h
      · split at h
        · cases h
          exact .of_setPhase hi (markDetached_quiet manager _ _ nowMs)
        · cases h
          exact .of_setPhase hi (.refl _)
      · cases h
  | openSession | destroySession | reap | sessionEnds => cases haction

theorem Broker.step_effect {manager : Manager} {idleTimeoutMs : Nat} {broker after : Broker}
    {action : BrokerAction} (h : broker.step manager idleTimeoutMs action = some after) :
    Broker.Effect manager broker action after := by
  have hsame : ∀ c ∈ broker.connections, ∃ before ∈ broker.connections, before.name = c.name :=
    fun c hc => ⟨c, hc, rfl⟩
  rw [Broker.step.eq_def] at h
  split at h
  · -- `session.open`
    simp only at h
    split at h
    · split at h
      · cases h
        exact .quiet (.refl _) hsame
      · cases h
        refine .opened rfl fun c hc => ?_
        rcases List.mem_append.mp hc with hold | hnew
        · exact .inl hold
        · exact .inr (congrArg Connection.name (List.mem_singleton.mp hnew))
    · cases h
  · -- `session.destroy`
    split at h
    · cases h
      exact .quiet (destroy_quiet manager _ _) hsame
    · cases h
  · cases h
    exact .quiet (reap_quiet manager _ _ idleTimeoutMs _) hsame
  · cases h
    exact .quiet (.kill _ _) hsame
  · obtain ⟨i, hconnection, h⟩ := Option.bind_eq_some_iff.mp h
    obtain ⟨connection, hi, h⟩ := Option.bind_eq_some_iff.mp h
    exact connection.step_effect hconnection hi h

/-! ## The invariant -/

/-- What the broker has made is listed, and the list is within the limit. -/
structure Server.Counted (manager : Manager) (server : Server) : Prop where
  ours : ∀ session ∈ server.sessions, session.ours = true → session.managed.isSome = true
  limit : server.listManaged.length ≤ manager.maxSessions

/-- The sessions the broker has made and that are still there. -/
def Server.made (server : Server) : Nat := server.sessions.countP (·.ours)

variable {manager : Manager} {server : Server} {name : String}

theorem Server.Counted.made_le (h : server.Counted manager) :
    server.made ≤ manager.maxSessions := by
  refine Nat.le_trans ?_ h.limit
  rw [length_listManaged]
  exact List.countP_mono_left h.ours

/-- A change under one name that neither the list nor the count can see. -/
theorem Server.Counted.modify {after : Server} {f : Session → Session}
    (h : server.Counted manager)
    (hafter : after.sessions = server.sessions.map fun s => if s.name = name then f s else s)
    (hsame : ∀ s ∈ server.sessions, s.name = name →
      (f s).ours = s.ours ∧ (f s).managed.isSome = s.managed.isSome) :
    after.Counted manager := by
  have heach : ∀ s ∈ server.sessions,
      (if s.name = name then f s else s).ours = s.ours ∧
        (if s.name = name then f s else s).managed.isSome = s.managed.isSome := by
    intro s hs
    split
    · next hname => exact hsame s hs hname
    · exact ⟨rfl, rfl⟩
  constructor
  · intro session hmem hours
    rw [hafter] at hmem
    obtain ⟨before, hbefore, rfl⟩ := List.mem_map.mp hmem
    rw [(heach before hbefore).1] at hours
    rw [(heach before hbefore).2]
    exact h.ours before hbefore hours
  · rw [length_listManaged]
    refine Nat.le_trans (Nat.le_of_eq ?_) (length_listManaged server ▸ h.limit)
    rw [hafter, List.countP_map]
    refine List.countP_congr fun s hs => ?_
    simp only [Function.comp_apply, (heach s hs).2]

theorem Server.Counted.kill (h : server.Counted manager) : (server.kill name).Counted manager where
  ours session hmem := h.ours session (Server.mem_kill.mp hmem).1
  limit := by
    refine Nat.le_trans ?_ h.limit
    rw [length_listManaged, length_listManaged]
    exact List.filter_sublist.countP_le

theorem Server.Counted.quiet {after : Server} (h : server.Counted manager)
    (hquiet : Quiet server after) : after.Counted manager := by
  induction hquiet with
  | refl => exact h
  | kill => exact h.kill
  | modify change ours managed => exact h.modify change fun s _ _ => ⟨ours s, managed s⟩
  | trans _ _ ihab ihbc => exact ihbc (ihab h)

theorem Server.Counted.create {after : Server} {persistent : Bool} (h : server.Counted manager)
    (hname : isManagedName name = true)
    (hroom : server.listManaged.length < manager.maxSessions)
    (hafter : after.sessions = server.sessions ++ [(Session.new name).opened persistent]) :
    after.Counted manager := by
  have hnew : ((Session.new name).opened persistent).managed.isSome = true := by
    rw [Session.opened_managed]
    exact hname
  constructor
  · intro session hmem hours
    rw [hafter, List.mem_append, List.mem_singleton] at hmem
    rcases hmem with hold | rfl
    · exact h.ours session hold hours
    · exact hnew
  · rw [length_listManaged] at hroom
    rw [length_listManaged, hafter, List.countP_append, List.countP_singleton, if_pos hnew]
    exact hroom

/-- One fewer is listed when a listed one is killed. -/
theorem length_listManaged_kill {candidate : ManagedSession}
    (h : candidate ∈ server.listManaged) :
    (server.kill candidate.name).listManaged.length < server.listManaged.length := by
  have hsublist : (server.kill candidate.name).listManaged.Sublist server.listManaged :=
    List.filter_sublist.filterMap _
  refine Nat.lt_of_not_le fun hle => ?_
  -- were none missing, the one that was killed would still be there
  rw [← hsublist.eq_of_length_le hle] at h
  obtain ⟨session, hmem, -, hname⟩ := exists_of_mem_listManaged h
  exact (Server.mem_kill.mp hmem).2 hname

theorem Server.Counted.ensureSession (h : server.Counted manager)
    (hlookup : manager.lookup = exactLookup) (hname : isManagedName name = true)
    (hours : ∀ session ∈ server.sessions, session.name = name → session.ours = true)
    (persistent : Bool) :
    (Termux.ensureSession manager server name persistent).server.Counted manager := by
  generalize houtcome : Termux.ensureSession manager server name persistent = outcome
  have hensured := houtcome ▸ ensureSession_ensured manager server name persistent
  cases hensured with
  | @existing session found =>
      have hnamed : server.Named name := by
        rw [hlookup] at found
        exact ⟨session, List.mem_of_find?_eq_some found, by simpa using List.find?_some found⟩
      rw [setOpened_of_named manager hnamed]
      -- it is listed already, since the broker made it
      refine h.modify rfl fun s hs hsname => ⟨rfl, ?_⟩
      rw [Session.opened_managed, hsname, hname, h.ours s hs (hours s hs hsname)]
  | refused => exact h
  | created _ room hsessions => exact h.create hname room hsessions
  | evicted _ full listed hsessions =>
      have hlimit := h.limit
      have hfewer := length_listManaged_kill listed
      exact h.kill.create hname (by omega) hsessions

theorem isManagedName_generatedName (uuid : List (Fin 16)) :
    isManagedName (generatedName uuid) = true := by
  have hdigit : ∀ d : Fin 16, ((hexDigit d).isLower || (hexDigit d).isDigit ||
      decide (hexDigit d = '_') || decide (hexDigit d = '-')) = true := by decide
  have htext : (generatedName uuid).toList = "zos-".toList ++ uuid.map hexDigit :=
    String.toList_ofList
  rw [isManagedName, htext, Bool.and_eq_true]
  constructor
  · rw [ List.isPrefixOf_iff_prefix]
    exact List.prefix_append _ _
  · rw [List.all_append, List.all_map, Bool.and_eq_true]
    refine ⟨by decide, ?_⟩
    rw [List.all_eq_true]
    intro d _
    exact hdigit d

/-! ## Runs -/

/-- Nothing here is the broker's yet, and nothing is taken for it. -/
def Broker.Initial (broker : Broker) : Prop :=
  broker.connections = [] ∧
    ∀ session ∈ broker.server.sessions, session.ours = false ∧ session.managed = none

/-- Names that are asked for are managed ones, and a session of that name is one of
the broker's. -/
def Broker.Expected (broker : Broker) : BrokerAction → Prop
  | .openSession (some given) _ _ => isManagedName given = true
  | .ensure i => ∀ connection ∈ broker.connections[i]?, ∀ session ∈ broker.server.sessions,
      session.name = connection.name → session.ours = true
  | _ => True

instance (broker : Broker) : (action : BrokerAction) → Decidable (broker.Expected action)
  | .openSession (some given) _ _ => inferInstanceAs (Decidable (isManagedName given = true))
  | .ensure i => inferInstanceAs (Decidable (∀ connection ∈ broker.connections[i]?,
      ∀ session ∈ broker.server.sessions, session.name = connection.name → session.ours = true))
  | .openSession none _ _ | .spawn _ _ | .markAttached _ | .resize _ _ _ | .close _ _ _
  | .hangUp _ | .childExits _ | .terminate _ | .markDetached _ _ | .destroySession _ | .reap _
  | .sessionEnds _ => .isTrue trivial

structure Broker.Inv (manager : Manager) (broker : Broker) : Prop where
  counted : broker.server.Counted manager
  names : ∀ connection ∈ broker.connections, isManagedName connection.name = true

theorem Broker.inv_init {broker : Broker} (h : broker.Initial) : broker.Inv manager := by
  obtain ⟨hconnections, hsessions⟩ := h
  refine ⟨⟨fun session hmem hours => ?_, ?_⟩, by simp [hconnections]⟩
  · rw [(hsessions session hmem).1] at hours
    cases hours
  · rw [Server.listManaged, List.filterMap_eq_nil_iff.mpr fun s hs => (hsessions s hs).2]
    exact Nat.zero_le _

theorem Broker.Inv.effect {broker after : Broker} {action : BrokerAction}
    (h : broker.Inv manager) (hlookup : manager.lookup = exactLookup)
    (hexpected : broker.Expected action) (heffect : broker.Effect manager action after) :
    after.Inv manager := by
  have hkept : (∀ c ∈ after.connections, ∃ before ∈ broker.connections, before.name = c.name) →
      ∀ c ∈ after.connections, isManagedName c.name = true := by
    intro hnames c hc
    obtain ⟨before, hbefore, hname⟩ := hnames c hc
    exact hname ▸ h.names before hbefore
  cases heffect with
  | @opened sessionName uuid persistent _ server names =>
      refine ⟨server ▸ h.counted, fun c hc => ?_⟩
      rcases names c hc with hold | hname
      · exact h.names c hold
      · rw [hname]
        cases sessionName with
        | none => exact isManagedName_generatedName uuid
        | some given => exact hexpected
  | @ensured i connection _ persistent hi server names =>
      refine ⟨?_, hkept names⟩
      rw [server]
      exact h.counted.ensureSession hlookup (h.names connection (List.mem_of_getElem? hi))
        (hexpected connection hi) persistent
  | quiet server names => exact ⟨h.counted.quiet server, hkept names⟩

/-- With targets that are matched exactly, and in every run that asks for managed
names only and finds none of them taken by others, the sessions the broker has
made stay within the limit. -/
theorem session_limit_holds (hlookup : manager.lookup = exactLookup) {idleTimeoutMs : Nat}
    {broker : Broker}
    (h : Reach (Broker.step manager idleTimeoutMs) Broker.Expected Broker.Initial broker) :
    broker.server.made ≤ manager.maxSessions := by
  have hinv : broker.Inv manager :=
    h.invariant (I := Broker.Inv manager) (fun _ hinit => Broker.inv_init hinit)
      fun _ _ _ hinv hexpected hstep => hinv.effect hlookup hexpected (Broker.step_effect hstep)
  exact hinv.counted.made_le

/-! ## A limit of one session -/

def newBroker : Broker := ⟨Server.empty, [], []⟩

theorem newBroker_initial : newBroker.Initial :=
  ⟨rfl, by simp [newBroker, Server.empty]⟩

theorem session_limit_holds_one :
    ∃ broker, Reach (Broker.step (plainManager exactLookup 1) 1000) Broker.Expected
        Broker.Initial broker ∧ broker.server.made = 1 ∧ broker.server.made ≤ 1 := by
  obtain ⟨broker, hrun, hmade⟩ := exists_run
    (guarded (Broker.step (plainManager exactLookup 1) 1000) Broker.Expected) newBroker
    [.openSession (some "zos-a") [] false, .ensure 0, .spawn 0 true, .markAttached 0,
      .openSession (some "zos-b") [] false, .ensure 1]
    (fun broker => broker.server.made = 1) (by decide)
  have hreach := Reach.of_guarded (fun _ _ h => h) (.init newBroker_initial) hrun
  exact ⟨broker, hreach, of_decide_eq_true hmade, session_limit_holds rfl hreach⟩

/-- Names that the protocol accepts but that are not managed ones are not counted. -/
theorem unmanaged_names_pass_limit :
    ∃ broker, Reach (Broker.step (plainManager exactLookup 1) 1000) anyStep
      Broker.Initial broker ∧ broker.server.made = 2 := by
  obtain ⟨broker, hrun, hmade⟩ := exists_run
    (Broker.step (plainManager exactLookup 1) 1000) newBroker
    [.openSession (some "A") [] false, .ensure 0, .openSession (some "B") [] false, .ensure 1]
    (fun broker => broker.server.made = 2) (by decide)
  exact ⟨broker, .of_run (.init newBroker_initial) (fun _ _ _ => trivial) hrun,
    of_decide_eq_true hmade⟩

end Zos.Termux
