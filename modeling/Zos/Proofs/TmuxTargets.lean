import Zos.Proofs.TmuxSteps

/-!
# Which session a request touches

tmux goes on looking when no session has the name that was asked for. The names
the protocol accepts hold no special character, so the pattern search finds
nothing new, but a name that is the beginning of exactly one other name means that
other session: `ensure_session` takes it for the one it was asked for and `destroy`
kills it. Where a session has the name, or tmux finds none, a request stays with
the session it names, but for `ensure_session` at the limit, which kills another
session or refuses.
-/

namespace Zos.Termux

variable {manager : Manager} {server : Server} {name : String}

/-- The request stays with the session it names; one that is to be opened is there
afterwards. -/
structure Confined (server : Server) (name : String) (request : Request) (outcome : Outcome) :
    Prop where
  touched : ∀ n ∈ outcome.touched, n = name
  others : ∀ session : Session, session.name ≠ name →
    (session ∈ outcome.server.sessions ↔ session ∈ server.sessions)
  opened : ∀ persistent, request = .ensureSession persistent → ¬ server.Named name →
    outcome.result = .ok () ∧ outcome.server.Named name

/-! ## Lookup -/

theorem onlyOne_eq_none {sessions : List Session} :
    onlyOne sessions = none ↔ sessions.length ≠ 1 := by
  unfold onlyOne
  split <;> simp_all [List.length_eq_one_iff]

theorem Glob.eq_of_test {glob : Glob} (hname : validateSessionName name = true) {n : String}
    (h : glob.test name n = true) : n = name := by
  refine glob.literal name n (fun c hc => ?_) h
  simp only [validateSessionName, Bool.and_eq_true, List.all_eq_true, Bool.or_eq_true,
    decide_eq_true_eq, or_assoc] at hname
  exact hname.2 c hc

/-- Without a session of that name, all that is left is the beginning of a name. -/
theorem documentedLookup_of_not_named {glob : Glob} (hname : validateSessionName name = true)
    (h : ¬ server.Named name) :
    (documentedLookup glob).run server name = onlyOne (server.startingWith name) := by
  have habsent : ∀ session ∈ server.sessions, session.name ≠ name :=
    fun session hmem heq => h ⟨session, hmem, heq⟩
  have hfind : server.find name = none := by
    rw [Server.find, List.find?_eq_none]
    intro session hmem
    simpa using habsent session hmem
  have hmatching : server.matching glob name = [] := by
    rw [Server.matching, List.filter_eq_nil_iff]
    intro session hmem htest
    exact habsent session hmem (Glob.eq_of_test hname htest)
  simp only [documentedLookup, hfind, hmatching]
  split
  · next hnone => rw [hnone]
  · rfl

/-! ## Requests -/

/-- Every request touches what its target means. -/
theorem touched_of_found (request : Request) {session : Session}
    (h : manager.lookup.run server name = some session) :
    session.name ∈ (request.perform manager server name).touched := by
  cases request with
  | ensureSession persistent => simp [Request.perform, ensureSession, h]
  | attach => simp [Request.perform, attach, h]
  | resize cols rows => simp [Request.perform, resize, h]
  | markAttached => simp [Request.perform, markAttached, setOption, h]
  | markDetached nowMs => simp [Request.perform, markDetached, h]
  | destroy => simp [Request.perform, destroy, h]

theorem confined_modify {request : Request} {result : Except TermuxError Unit}
    {touched : List String} {f : Session → Session} {hf : ∀ s, (f s).name = s.name}
    (h : server.Named name) (htouched : ∀ n ∈ touched, n = name) :
    Confined server name request ⟨result, server.modify name f hf, touched⟩ where
  touched := htouched
  others _ hne := Server.mem_modify_of_ne hf hne
  opened _ _ habsent := absurd h habsent

theorem confined_of_named (request : Request) (h : server.Named name) :
    Confined server name request (request.perform manager server name) := by
  obtain ⟨session, hmem, hname, hfound⟩ := manager.lookup_of_named h
  cases request with
  | ensureSession persistent =>
      simp only [Request.perform, ensureSession, hfound, setOpened_of_named manager h]
      exact confined_modify h (by simp [hname])
  | attach =>
      simp only [Request.perform, attach, hfound, hname]
      exact confined_modify h (by simp)
  | resize cols rows =>
      simp only [Request.perform, resize, hfound, hname]
      exact confined_modify h (by simp)
  | markAttached =>
      simp only [Request.perform, markAttached, setOption_of_named manager h]
      exact confined_modify h (by simp)
  | markDetached nowMs =>
      simp only [Request.perform, markDetached, hfound, setOption_of_named manager h]
      exact confined_modify h (by simp [hname])
  | destroy =>
      simp only [Request.perform, destroy, hfound, hname]
      exact {
        touched := by simp
        others := fun s hne => by rw [Server.mem_kill, and_iff_left hne]
        opened := fun _ heq => by cases heq }

/-- A request that changes nothing. -/
theorem confined_idle {request : Request} {result : Except TermuxError Unit}
    (h : ∀ persistent, request ≠ .ensureSession persistent) :
    Confined server name request ⟨result, server, []⟩ where
  touched := by simp
  others _ _ := Iff.rfl
  opened persistent heq := absurd heq (h persistent)

theorem confined_of_missing {request : Request}
    (hmissing : manager.lookup.run server name = none)
    (hroom : ∀ persistent, request = .ensureSession persistent →
      server.listManaged.length < manager.maxSessions) :
    Confined server name request (request.perform manager server name) := by
  cases request with
  | ensureSession persistent =>
      have hroom := hroom persistent rfl
      rw [Request.perform]
      generalize houtcome : ensureSession manager server name persistent = outcome
      have hensured := houtcome ▸ ensureSession_ensured manager server name persistent
      cases hensured with
      | existing found => rw [hmissing] at found; cases found
      | refused _ full => omega
      | evicted _ full => omega
      | created _ _ hsessions =>
          refine ⟨by simp, fun session hne => ?_, fun _ _ _ => ⟨rfl, ?_⟩⟩
          · rw [hsessions, List.mem_append, List.mem_singleton]
            refine or_iff_left fun heq => hne ?_
            rw [heq, Session.opened_name, Session.new]
          · refine ⟨(Session.new name).opened persistent, ?_, rfl⟩
            rw [hsessions]
            exact List.mem_append_right _ (List.mem_singleton_self _)
  | attach =>
      simp only [Request.perform, attach, hmissing]
      exact confined_idle (by simp)
  | resize cols rows =>
      simp only [Request.perform, resize, hmissing]
      exact confined_idle (by simp)
  | markAttached =>
      simp only [Request.perform, markAttached, setOption, hmissing]
      exact confined_idle (by simp)
  | markDetached nowMs =>
      simp only [Request.perform, markDetached, hmissing]
      exact confined_idle (by simp)
  | destroy =>
      simp only [Request.perform, destroy_of_missing hmissing]
      exact confined_idle (by simp)

/-- At the limit, a session that is not there is opened at the cost of another, or
not at all. -/
theorem room_of_confined {persistent : Bool} (habsent : ¬ server.Named name)
    (hmissing : manager.lookup.run server name = none)
    (h : Confined server name (.ensureSession persistent)
      (ensureSession manager server name persistent)) :
    server.listManaged.length < manager.maxSessions := by
  generalize houtcome : ensureSession manager server name persistent = outcome at h
  have hensured := houtcome ▸ ensureSession_ensured manager server name persistent
  cases hensured with
  | existing found => rw [hmissing] at found; cases found
  | refused _ full => cases (h.opened persistent rfl habsent).1
  | created _ room => exact room
  | evicted _ _ listed =>
      obtain ⟨session, hmem, -, hname⟩ := exists_of_mem_listManaged listed
      exact absurd ⟨session, hmem, hname.trans (h.touched _ List.mem_cons_self)⟩ habsent

/-- A request for an accepted name stays with the session of that name exactly when
there is one, or else when that name is not the beginning of just one other and,
to open a session, fewer than the limit are listed. -/
theorem request_confined_iff (glob : Glob) (hlookup : manager.lookup = documentedLookup glob)
    (hname : validateSessionName name = true) (request : Request) :
    Confined server name request (request.perform manager server name) ↔
      server.Named name ∨ ((server.startingWith name).length ≠ 1 ∧
        ∀ persistent, request = .ensureSession persistent →
          server.listManaged.length < manager.maxSessions) := by
  by_cases hnamed : server.Named name
  · exact iff_of_true (confined_of_named request hnamed) (.inl hnamed)
  have hrun : manager.lookup.run server name = onlyOne (server.startingWith name) := by
    rw [hlookup]
    exact documentedLookup_of_not_named hname hnamed
  rw [or_iff_right hnamed, ← onlyOne_eq_none, ← hrun]
  constructor
  · intro hconfined
    have hmissing : manager.lookup.run server name = none := by
      cases hfound : manager.lookup.run server name with
      | none => rfl
      | some session =>
          have htouched := hconfined.touched _ (touched_of_found request hfound)
          exact absurd ⟨session, manager.lookup.mem hfound, htouched⟩ hnamed
    refine ⟨hmissing, fun persistent hrequest => ?_⟩
    subst hrequest
    exact room_of_confined hnamed hmissing hconfined
  · rintro ⟨hmissing, hroom⟩
    exact confined_of_missing hmissing hroom

/-! ## One session on the server -/

/-- Patterns without a special character. -/
def literalGlob : Glob where
  test pattern n := n = pattern
  literal _ _ _ h := of_decide_eq_true h

def documentedManager : Manager := plainManager (documentedLookup literalGlob) 8

def oneSession : Server := ⟨[Session.new "zos-ab"], by simp⟩

theorem request_confined_other_name :
    validateSessionName "zos-b" = true ∧
      Confined oneSession "zos-b" .destroy
        (Request.destroy.perform documentedManager oneSession "zos-b") := by
  refine ⟨by decide, (request_confined_iff literalGlob rfl (by decide) .destroy).mpr
    (.inr ⟨by decide, ?_⟩)⟩
  intro persistent hrequest
  cases hrequest

/-- The session `zos-ab` is killed by a request for `zos-a`, and one that is to open
`zos-a` changes it and makes none. -/
theorem request_reaches_longer_name :
    validateSessionName "zos-a" = true ∧ ¬ oneSession.Named "zos-a" ∧
      (destroy documentedManager oneSession "zos-a").server.sessions = [] ∧
      (ensureSession documentedManager oneSession "zos-a" false).server.sessions =
        [(Session.new "zos-ab").opened false] ∧
      ¬ Confined oneSession "zos-a" .destroy
        (Request.destroy.perform documentedManager oneSession "zos-a") := by
  refine ⟨by decide, ?_, by decide, by decide, fun h => ?_⟩
  · rintro ⟨session, hmem, hname⟩
    rw [List.mem_singleton.mp hmem] at hname
    exact absurd hname (by decide)
  · have htouched := h.touched "zos-ab" (by decide)
    exact absurd htouched (by decide)

end Zos.Termux
