import Mathlib.Data.List.Infix
import Zos.Termux.Tmux

/-!
# What the terminal operations do

One contract for each operation of the manager, over any lookup. The name of a
session means that session whatever else tmux would try, so on a session that
exists the three options are one change of it, and a session that was just made is
the one that is initialised. `Ensured` says everything `ensure_session` can do.
-/

namespace Zos.Termux

variable {manager : Manager} {server : Server} {name : String}

/-! ## Changes to one session -/

theorem Server.modify_modify {f g : Session → Session} (hf : ∀ s, (f s).name = s.name)
    (hg : ∀ s, (g s).name = s.name) :
    (server.modify name f hf).modify name g hg =
      server.modify name (fun s => g (f s)) fun s => (hg (f s)).trans (hf s) := by
  ext1
  simp only [Server.modify, List.map_map]
  refine List.map_congr_left fun session _ => ?_
  simp only [Function.comp_apply]
  by_cases h : session.name = name
  · rw [if_pos h, if_pos h, if_pos ((hf session).trans h)]
  · rw [if_neg h, if_neg h, if_neg h]

/-- A session has this name. -/
def Server.Named (server : Server) (name : String) : Prop :=
  ∃ session ∈ server.sessions, session.name = name

theorem Server.Named.modify {f : Session → Session} {hf : ∀ s, (f s).name = s.name}
    {other : String} (h : server.Named name) : (server.modify other f hf).Named name := by
  obtain ⟨session, hmem, rfl⟩ := h
  refine ⟨_, List.mem_map_of_mem hmem, ?_⟩
  split
  · exact hf session
  · rfl

theorem Server.mem_modify_of_ne {f : Session → Session} (hf : ∀ s, (f s).name = s.name)
    {session : Session} (hne : session.name ≠ name) :
    session ∈ (server.modify name f hf).sessions ↔ session ∈ server.sessions := by
  simp only [Server.modify, List.mem_map]
  constructor
  · rintro ⟨before, hmem, heq⟩
    split at heq
    · next hname => exact absurd (heq ▸ (hf before).trans hname) hne
    · exact heq ▸ hmem
  · intro hmem
    exact ⟨session, hmem, if_neg hne⟩

theorem Server.mem_kill {session : Session} :
    session ∈ (server.kill name).sessions ↔ session ∈ server.sessions ∧ session.name ≠ name := by
  simp [Server.kill]

/-! ## Initialising a session -/

def Session.opened (persistent : Bool) (session : Session) : Session :=
  ((session.setOption "@zos_managed" "1").setOption "@zos_persistent"
    (if persistent then "1" else "0")).setOption "@zos_detached_at" "0"

theorem Session.opened_name (persistent : Bool) (session : Session) :
    (session.opened persistent).name = session.name :=
  rfl

theorem Manager.lookup_of_named (manager : Manager) (h : server.Named name) :
    ∃ session ∈ server.sessions, session.name = name ∧
      manager.lookup.run server name = some session := by
  obtain ⟨session, hmem, rfl⟩ := h
  exact ⟨session, hmem, rfl, manager.lookup.named hmem⟩

theorem setOption_of_named (manager : Manager) (h : server.Named name)
    (option value : String) :
    setOption manager server name option value =
      ⟨.ok (), server.modify name (·.setOption option value) (·.setOption_name option value),
        [name]⟩ := by
  obtain ⟨session, -, rfl, hfound⟩ := manager.lookup_of_named h
  rw [setOption, hfound]

theorem Outcome.andThen_ok (server : Server) (touched : List String) (next : Server → Outcome) :
    Outcome.andThen ⟨.ok (), server, touched⟩ next =
      ⟨(next server).result, (next server).server, touched ++ (next server).touched⟩ :=
  rfl

theorem setOpened_of_named (manager : Manager) (h : server.Named name) (persistent : Bool) :
    setOpened manager server name persistent =
      ⟨.ok (), server.modify name (Session.opened persistent) (Session.opened_name persistent),
        [name, name, name]⟩ := by
  -- each option is set on what the one before has left under the same name
  rw [setOpened, setOption_of_named manager h, Outcome.andThen_ok,
    setOption_of_named manager h.modify, Outcome.andThen_ok,
    setOption_of_named manager h.modify.modify]
  show (⟨.ok (), _, [name, name, name]⟩ : Outcome) = _
  rw [Server.modify_modify, Server.modify_modify]
  rfl

theorem createSession_of_absent (manager : Manager) (server : Server)
    (h : ∀ session ∈ server.sessions, session.name ≠ name)
    (persistent : Bool) :
    ∃ after, createSession manager server name persistent = ⟨.ok (), after, [name, name, name]⟩ ∧
      after.sessions = server.sessions ++ [(Session.new name).opened persistent] := by
  have hfree : name ∉ server.sessions.map (·.name) := by
    intro hmem
    obtain ⟨session, hs, hname⟩ := List.mem_map.mp hmem
    exact h session hs hname
  obtain ⟨made, hmade, hsessions⟩ : ∃ made, server.newSession name = some made ∧
      made.sessions = server.sessions ++ [Session.new name] := by
    rw [Server.newSession, dif_pos hfree]
    exact ⟨_, rfl, rfl⟩
  have hnew : made.Named name := by
    refine ⟨Session.new name, ?_, rfl⟩
    rw [hsessions]
    exact List.mem_append_right _ (List.mem_singleton_self _)
  refine ⟨made.modify name (Session.opened persistent) (Session.opened_name persistent), ?_, ?_⟩
  · simp only [createSession, hmade, setOpened_of_named manager hnew]
  · have hothers : (server.sessions.map fun session =>
        if session.name = name then session.opened persistent else session) =
        server.sessions := by
      refine (List.map_congr_left fun session hs => ?_).trans (List.map_id _)
      rw [if_neg (h session hs), id]
    simp only [Server.modify, hsessions, List.map_append, hothers, List.map_singleton]
    rw [if_pos (show (Session.new name).name = name from rfl)]

/-! ## Eviction -/

theorem earlier_mem {best : Option ManagedSession} {session b : ManagedSession}
    (h : b ∈ earlier best session) : b = session ∨ b ∈ best := by
  cases best with
  | none => exact .inl (Option.mem_some.mp h).symm
  | some best =>
      rw [earlier] at h
      split at h
      · exact .inl (Option.mem_some.mp h).symm
      · exact .inr h

/-- The best so far is one of those seen, in every turn. -/
theorem foldl_earlier_mem {sessions : List ManagedSession} {best : Option ManagedSession}
    {b : ManagedSession} (h : b ∈ sessions.foldl earlier best) : b ∈ sessions ∨ b ∈ best := by
  induction sessions generalizing best with
  | nil => exact .inr h
  | cons session rest ih =>
      rcases ih h with hrest | hearlier
      · exact .inl (List.mem_cons_of_mem _ hrest)
      · rcases earlier_mem hearlier with rfl | hbest
        · exact .inl List.mem_cons_self
        · exact .inr hbest

theorem evictionCandidate_mem {sessions : List ManagedSession} {candidate : ManagedSession}
    (h : evictionCandidate sessions = some candidate) : candidate ∈ sessions := by
  rcases foldl_earlier_mem h with hmem | hnone
  · exact List.mem_of_mem_filter hmem
  · cases hnone

theorem exists_of_mem_listManaged {managed : ManagedSession}
    (h : managed ∈ server.listManaged) :
    ∃ session ∈ server.sessions, session.managed = some managed ∧
      session.name = managed.name := by
  obtain ⟨session, hmem, hmanaged⟩ := List.mem_filterMap.mp h
  refine ⟨session, hmem, hmanaged, ?_⟩
  rw [Session.managed] at hmanaged
  split at hmanaged
  · exact congrArg ManagedSession.name (Option.some.inj hmanaged)
  · cases hmanaged

theorem destroy_of_mem {session : Session} (h : session ∈ server.sessions) :
    destroy manager server session.name =
      ⟨.ok (), server.kill session.name, [session.name]⟩ := by
  rw [destroy, manager.lookup.named h]

theorem destroy_of_missing (h : manager.lookup.run server name = none) :
    destroy manager server name = ⟨.ok (), server, []⟩ := by
  simp only [destroy, h, manager.missing, if_true]

/-! ## Opening a session -/

theorem absent_of_missing (h : manager.lookup.run server name = none) :
    ∀ session ∈ server.sessions, session.name ≠ name := by
  intro session hmem hname
  have hfound := manager.lookup.named hmem
  rw [hname, h] at hfound
  cases hfound

/-- Everything `ensure_session` can do. -/
inductive Ensured (manager : Manager) (server : Server) (name : String) (persistent : Bool) :
    Outcome → Prop where
  | existing {session : Session} (found : manager.lookup.run server name = some session) :
      Ensured manager server name persistent
        { setOpened manager server name persistent with
          touched := session.name :: (setOpened manager server name persistent).touched }
  | refused (missing : manager.lookup.run server name = none)
      (full : manager.maxSessions ≤ server.listManaged.length) :
      Ensured manager server name persistent ⟨.error .sessionLimit, server, []⟩
  | created {after : Server} (missing : manager.lookup.run server name = none)
      (room : server.listManaged.length < manager.maxSessions)
      (sessions : after.sessions = server.sessions ++ [(Session.new name).opened persistent]) :
      Ensured manager server name persistent ⟨.ok (), after, [name, name, name]⟩
  | evicted {after : Server} {candidate : ManagedSession}
      (missing : manager.lookup.run server name = none)
      (full : manager.maxSessions ≤ server.listManaged.length)
      (listed : candidate ∈ server.listManaged)
      (sessions : after.sessions =
        (server.kill candidate.name).sessions ++ [(Session.new name).opened persistent]) :
      Ensured manager server name persistent ⟨.ok (), after, [candidate.name, name, name, name]⟩

theorem ensureSession_ensured (manager : Manager) (server : Server) (name : String)
    (persistent : Bool) :
    Ensured manager server name persistent (ensureSession manager server name persistent) := by
  rw [ensureSession]
  split
  · next session found => exact .existing found
  · next missing =>
      have habsent := absent_of_missing missing
      dsimp only
      split
      · next full =>
          split
          · exact .refused missing full
          · next candidate hcandidate =>
              have hlisted := evictionCandidate_mem hcandidate
              obtain ⟨session, hmem, -, hname⟩ := exists_of_mem_listManaged hlisted
              obtain ⟨after, hcreate, hsessions⟩ :=
                createSession_of_absent manager (server.kill candidate.name)
                  (fun s hs => habsent s (Server.mem_kill.mp hs).1) persistent
              rw [← hname, destroy_of_mem hmem, hname]
              simp only [Outcome.andThen, hcreate, List.cons_append, List.nil_append]
              exact .evicted missing full hlisted hsessions
      · next room =>
          obtain ⟨after, hcreate, hsessions⟩ :=
            createSession_of_absent manager server habsent persistent
          rw [hcreate]
          exact .created missing (Nat.lt_of_not_le room) hsessions

/-- A manager over a tmux that says which session it cannot find. -/
def plainManager (lookup : Lookup) (maxSessions : Nat) : Manager where
  lookup := lookup
  maxSessions := maxSessions
  stderr _ target := "can't find session: " ++ target
  missing target := by
    have hfound : containsText ("can't find session: " ++ target) "can't find session" = true := by
      rw [containsText, List.any_eq_true]
      refine ⟨_, (List.mem_tails _ _).mpr (List.suffix_refl _), ?_⟩
      rw [ List.isPrefixOf_iff_prefix, String.toList_append]
      exact ⟨": ".toList ++ target.toList, by simp⟩
    rw [isMissingSession, hfound, Bool.true_or, Bool.true_or]

end Zos.Termux
