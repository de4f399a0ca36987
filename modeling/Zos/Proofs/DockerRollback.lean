import Zos.Hostd.DockerDaemon
import Zos.Lib.Reach

/-!
# What a roll-back goes back to

The baseline is taken when no change is pending, and then the configuration is the
one dockerd was last restarted with. From there on the transaction on the disk says
that the baseline holds that configuration, through every later save, every failed
restart and every crash, until a restart succeeds. That restart makes the new
configuration the good one while the transaction still stands for the old one, and
until it is removed the two disagree: a process that stops just there leaves a
baseline to which a later roll-back wrongly returns. The invariant makes an exception
of that one point, and a crash is the only step that could leave it.
-/

namespace Zos.Hostd.DockerDaemon

open Zos.Lib

variable {env : Env} {s s' : State}

/-- The baseline is what dockerd was last restarted with. -/
def State.Keeps (s : State) (transaction : DockerTransaction) : Prop :=
  s.lastGood = if transaction.baselineExists then s.disk.baseline else none

/-- The files say what dockerd was last restarted with. -/
structure State.Rest (s : State) : Prop where
  kept : ∀ transaction ∈ s.disk.transaction, s.Keeps transaction
  clean : s.disk.transaction = none → s.disk.config = s.lastGood

/-- What an update relies on at each point. -/
def State.Knows (env : Env) (s : State) : Pc → Prop
  | .idle | .answer _ => True
  | .baseline _ current => s.disk.transaction = none ∧ current = readConfigFile env s.disk
  | .record _ current => s.disk.transaction = none ∧ current = readConfigFile env s.disk ∧
      s.disk.baseline = if current.fileExists then some current.content else none
  | .save _ transaction | .pending _ transaction | .restart _ transaction
  | .restore transaction => s.disk.transaction ≠ none ∧ s.Keeps transaction
  | .restartRestored => s.disk.transaction ≠ none ∧ s.disk.config = s.lastGood
  | .clearTransaction _ => s.disk.config = s.lastGood
  | .clearBaseline _ => s.disk.transaction = none ∧ s.disk.config = s.lastGood

/-- The update has not restarted dockerd with its own configuration. -/
def Pc.beforeRestart : Pc → Bool
  | .idle | .clearTransaction .restarted | .clearBaseline .restarted => false
  | _ => true

/-- A roll-back that is reported as succeeded. -/
def State.RolledBack (s : State) : Prop :=
  ∃ reply ∈ s.reply, reply.rollback = some .succeeded

/-- The configuration is back to what was good at the call, and nothing is pending. -/
structure State.Restored (s : State) : Prop where
  config : s.disk.config = s.goodAtCall
  transaction : s.disk.transaction = none
  baseline : s.disk.baseline = none

structure Inv (env : Env) (s : State) : Prop where
  -- the one point where the files are wrong about the past
  rest : s.pc ≠ .clearTransaction .restarted → s.Rest
  knows : s.Knows env s.pc
  atCall : s.pc.beforeRestart = true → s.goodAtCall = s.lastGood
  reported : s.RolledBack → s.pc = .idle ∧ s.Restored

theorem inv_init (h : Initial s) : Inv env s := by
  obtain ⟨hpc, hreply, htransaction, hgood⟩ := h
  refine ⟨fun _ => ⟨?_, fun _ => hgood.symm⟩, ?_, ?_, ?_⟩
  · simp [htransaction]
  · rw [hpc]
    trivial
  · simp [hpc, Pc.beforeRestart]
  · simp [State.RolledBack, hreply]

/-! ## Ending an update -/

/-- A reply that reports no successful roll-back. -/
theorem inv_finish {reply : Reply} (hrest : s.Rest) (hreply : reply.rollback ≠ some .succeeded) :
    Inv env (s.finish reply) where
  rest _ := ⟨hrest.kept, hrest.clean⟩
  knows := trivial
  atCall h := by cases h
  reported := by
    rintro ⟨r, hr, hsucceeded⟩
    rw [State.finish, Option.mem_some] at hr
    exact absurd (hr ▸ hsucceeded) hreply

theorem inv_rolledBack_failed (hrest : s.Rest) : Inv env (s.rolledBack env .failed) :=
  inv_finish hrest (by simp [Reply.rollback])

/-- While an update is under way there is no reply. -/
theorem Inv.silent (h : Inv env s) (hpc : s.pc ≠ .idle) : ¬ s.RolledBack :=
  fun hreported => hpc (h.reported hreported).1

/-! ## Points after the transaction is known -/

theorem knows_saved (input : DockerUpdateInput) {transaction : DockerTransaction}
    (hpending : s.disk.transaction ≠ none) (hkeeps : s.Keeps transaction) :
    s.Knows env (saved input transaction) := by
  rw [saved]
  split
  · exact ⟨hpending, hkeeps⟩
  · trivial

theorem knows_withTransaction (input : DockerUpdateInput) (current : DockerConfigFile)
    {transaction : DockerTransaction} (hpending : s.disk.transaction ≠ none)
    (hkeeps : s.Keeps transaction) :
    s.Knows env (withTransaction env input current transaction) := by
  rw [withTransaction]
  split
  · exact ⟨hpending, hkeeps⟩
  · split
    · exact ⟨hpending, hkeeps⟩
    · exact knows_saved input hpending hkeeps

/-- An update that goes on: the files are right, and it knows what it relies on. -/
theorem inv_continue {pc : Pc} (hpc : s.pc = pc) (hrest : s.Rest) (hknows : s.Knows env pc)
    (hcall : s.goodAtCall = s.lastGood) (hsilent : ¬ s.RolledBack) : Inv env s where
  rest _ := hrest
  knows := hpc ▸ hknows
  atCall _ := hcall
  reported h := absurd h hsilent

/-! ## Steps -/

theorem inv_begin {input : DockerUpdateInput} {available accepted : Bool} (hrest : s.Rest) :
    Inv env (begin env s input available accepted) := by
  have hrest' : State.Rest { s with goodAtCall := s.lastGood, reply := none } :=
    ⟨hrest.kept, hrest.clean⟩
  have hsilent : ∀ pc, ¬ State.RolledBack
      { s with goodAtCall := s.lastGood, reply := none, pc := pc } := by
    simp [State.RolledBack]
  rw [begin]
  dsimp only
  split
  · exact inv_finish hrest' (by simp [Reply.rollback])
  · split
    · exact inv_finish hrest' (by simp [Reply.rollback])
    · split
      · exact inv_finish hrest' (by simp [Reply.rollback])
      · split
        · exact inv_finish hrest' (by simp [Reply.rollback])
        · split
          · next transaction htransaction =>
              refine inv_continue rfl ⟨hrest.kept, hrest.clean⟩ ?_ rfl (hsilent _)
              exact knows_withTransaction input _ (by simp [htransaction])
                (hrest.kept transaction htransaction)
          · next htransaction =>
              split
              · exact inv_continue rfl ⟨hrest.kept, hrest.clean⟩ ⟨htransaction, rfl⟩ rfl
                  (hsilent _)
              · exact inv_continue rfl ⟨hrest.kept, hrest.clean⟩ trivial rfl (hsilent _)

/-- What the baseline file and the transaction say once both are written. -/
theorem keeps_baseline {current : DockerConfigFile} (revision : String)
    (hclean : s.disk.config = s.lastGood) (hcurrent : current = readConfigFile env s.disk)
    (hbaseline : s.disk.baseline = if current.fileExists then some current.content else none) :
    s.Keeps ⟨current.fileExists, revision, revision⟩ := by
  rw [State.Keeps, hbaseline, ← hclean, hcurrent, readConfigFile]
  split
  · next content hconfig => rw [hconfig]; rfl
  · next hconfig => rw [hconfig]; rfl

theorem restoreBaseline_config {transaction : DockerTransaction} {disk : Disk}
    (hkeeps : s.Keeps transaction)
    (h : restoreBaseline env s.disk transaction = some disk) :
    disk = { s.disk with config := s.lastGood } := by
  rw [State.Keeps] at hkeeps
  rw [restoreBaseline] at h
  split at h
  · next hexists =>
      obtain ⟨baseline, hbaseline, h⟩ := Option.bind_eq_some_iff.mp h
      rw [if_pos hexists, hbaseline] at hkeeps
      split at h
      · rw [hkeeps]
        exact (Option.some.inj h).symm
      · cases h
  · next hmissing =>
      rw [if_neg hmissing] at hkeeps
      split at h
      · rw [hkeeps]
        exact (Option.some.inj h).symm
      · cases h

theorem inv_proceed (hinv : Inv env s) (h : proceed env s = some s') : Inv env s' := by
  have hknows := hinv.knows
  have hrest := hinv.rest
  have hcall := hinv.atCall
  rw [proceed] at h
  split at h
  · next input current hpc =>
      rw [hpc] at hknows hrest hcall
      obtain ⟨hnone, hcurrent⟩ := hknows
      cases h
      have hsilent := hinv.silent (by simp [hpc])
      refine inv_continue rfl ⟨?_, (hrest (by simp)).clean⟩ ⟨hnone, hcurrent, rfl⟩ (hcall rfl)
        hsilent
      intro transaction htransaction
      rw [State.write, hnone] at htransaction
      cases htransaction
  · next input current hpc =>
      rw [hpc] at hknows hrest hcall
      obtain ⟨hnone, hcurrent, hbaseline⟩ := hknows
      cases h
      have hsilent := hinv.silent (by simp [hpc])
      have hkeeps := keeps_baseline current.revision ((hrest (by simp)).clean hnone)
        hcurrent hbaseline
      refine inv_continue rfl ⟨?_, fun hnone => by cases hnone⟩
        (knows_withTransaction input current (by simp [State.write]) hkeeps) (hcall rfl) hsilent
      intro transaction htransaction
      rw [State.write, Option.mem_some] at htransaction
      exact htransaction ▸ hkeeps
  · next input transaction hpc =>
      rw [hpc] at hknows hrest hcall
      obtain ⟨hpending, hkeeps⟩ := hknows
      have hsilent := hinv.silent (by simp [hpc])
      split at h
      · cases h
        exact inv_finish (hrest (by simp)) (by simp [Reply.rollback])
      · cases h
        exact inv_continue rfl ⟨(hrest (by simp)).kept, fun hnone => absurd hnone hpending⟩
          ⟨hpending, hkeeps⟩ (hcall rfl) hsilent
  · next input transaction hpc =>
      rw [hpc] at hknows hrest hcall
      obtain ⟨-, hkeeps⟩ := hknows
      cases h
      have hsilent := hinv.silent (by simp [hpc])
      refine inv_continue rfl ⟨?_, fun hnone => by cases hnone⟩
        (knows_saved input (by simp [State.write]) hkeeps) (hcall rfl) hsilent
      intro t ht
      rw [State.write, Option.mem_some] at ht
      exact ht ▸ hkeeps
  · next input hpc =>
      have hrest := hrest (by simp [hpc])
      dsimp only at h
      split at h
      · cases h
        exact inv_finish hrest (by simp [Reply.rollback])
      · cases h
        exact inv_finish hrest (by simp [Reply.rollback])
  · next transaction hpc =>
      rw [hpc] at hknows hrest hcall
      obtain ⟨hpending, hkeeps⟩ := hknows
      split at h
      · next disk hdisk =>
          cases h
          cases restoreBaseline_config hkeeps hdisk
          exact inv_continue rfl ⟨(hrest (by simp)).kept, fun hnone => absurd hnone hpending⟩
            ⟨hpending, rfl⟩ (hcall rfl) (hinv.silent (by simp [hpc]))
      · cases h
        exact inv_rolledBack_failed (hrest (by simp))
  · next why hpc =>
      rw [hpc] at hknows hcall
      cases h
      refine ⟨fun _ => ⟨fun _ ht => (by cases ht), fun _ => hknows⟩, ⟨rfl, hknows⟩, ?_,
        fun hreported => absurd hreported (hinv.silent (by simp [hpc]))⟩
      intro hbefore
      cases why with
      | restarted => cases hbefore
      | restored => exact hcall rfl
  · next why hpc =>
      rw [hpc] at hknows hrest hcall
      obtain ⟨hnone, hclean⟩ := hknows
      have hrest' : State.Rest (s.write { s.disk with baseline := none } .idle) := by
        refine ⟨fun transaction htransaction => ?_, fun _ => hclean⟩
        rw [State.write, hnone] at htransaction
        cases htransaction
      cases why with
      | restarted =>
          cases h
          exact inv_finish hrest' (by simp [Reply.rollback])
      | restored =>
          cases h
          exact ⟨fun _ => ⟨hrest'.kept, hrest'.clean⟩, trivial, fun hbefore => (by cases hbefore),
            fun _ => ⟨rfl, hclean.trans (hcall rfl).symm, hnone, rfl⟩⟩
  · cases h
  · cases h
  · cases h

theorem inv_restart {succeeds : Bool} (hinv : Inv env s)
    (h : restart env s succeeds = some s') : Inv env s' := by
  have hknows := hinv.knows
  have hrest := hinv.rest
  have hcall := hinv.atCall
  rw [restart] at h
  split at h
  · next input transaction hpc =>
      rw [hpc] at hknows hrest hcall
      have hsilent := hinv.silent (by simp [hpc])
      split at h
      · cases h
        exact inv_finish (hrest (by simp)) (by simp [Reply.rollback])
      · split at h
        · cases h
          -- from here to the removal of the transaction the baseline is out of date
          exact ⟨fun hne => absurd rfl hne, rfl, fun hbefore => (by cases hbefore),
            fun hreported => absurd hreported hsilent⟩
        · cases h
          exact inv_continue rfl ⟨(hrest (by simp)).kept, (hrest (by simp)).clean⟩ hknows
            (hcall rfl) hsilent
  · next hpc =>
      rw [hpc] at hknows hrest hcall
      obtain ⟨hpending, hgood⟩ := hknows
      split at h
      · cases h
        -- the configuration that is good now is the one that was
        have hkept := (hrest (by simp)).kept
        rw [← hgood] at hcall
        refine inv_continue rfl ⟨fun t ht => ?_, fun _ => rfl⟩ rfl (hcall rfl)
          (hinv.silent (by simp [hpc]))
        exact hgood.trans (hkept t ht)
      · cases h
        exact inv_rolledBack_failed (hrest (by simp))
  · cases h

/-! ## Runs -/

/-- The process does not stop between a restart that succeeded and the removal of
the transaction. -/
def NoCrashAfterRestart (s : State) (action : Action) : Prop :=
  action = .crash → s.pc ≠ .clearTransaction .restarted

instance (s : State) (action : Action) : Decidable (NoCrashAfterRestart s action) :=
  inferInstanceAs (Decidable (_ → _))

theorem inv_step {action : Action} (hinv : Inv env s) (hcrash : NoCrashAfterRestart s action)
    (h : step env s action = some s') : Inv env s' := by
  cases action with
  | read =>
      cases h
      exact hinv
  | update input available accepted =>
      rw [step] at h
      split at h
      · next hpc =>
          cases h
          exact inv_begin (hinv.rest (by simp [hpc]))
      · cases h
  | proceed => exact inv_proceed hinv h
  | restart succeeds => exact inv_restart hinv h
  | crash =>
      cases h
      have hrest := hinv.rest (hcrash rfl)
      exact ⟨fun _ => ⟨hrest.kept, hrest.clean⟩, trivial, fun hbefore => (by cases hbefore),
        fun hreported => (by simp [State.RolledBack] at hreported)⟩

/-- A roll-back that is reported as succeeded has restored the configuration of the
last successful restart before the update, and nothing is pending. -/
theorem rollback_restores_last_good
    (h : Reach (step env) NoCrashAfterRestart Initial s) (hreported : s.RolledBack) :
    s.Restored := by
  have hinv : Inv env s :=
    h.invariant (I := Inv env) (fun _ hinit => inv_init hinit)
      fun _ _ _ hinv hcrash hstep => inv_step hinv hcrash hstep
  exact (hinv.reported hreported).2

/-! ## Three configurations -/

theorem rolledBack_iff : s.RolledBack ↔ s.reply.bind Reply.rollback = some .succeeded := by
  rw [Option.bind_eq_some_iff]
  exact Iff.rfl

/-- Texts of one character have revisions of their own. -/
def letterEnv : Env where
  revision fileExists content :=
    String.ofList ((if fileExists then content.toList.take 1 else ['0']) ++ List.replicate 63 '0')
  isObject _ := some true

def revisionOf (content : String) : String := letterEnv.revision true content

/-- dockerd runs with `a`. -/
def runsWithA : State := ⟨⟨some "a", none, none⟩, .idle, none, some "a", none⟩

theorem runsWithA_initial : Initial runsWithA := ⟨rfl, rfl, rfl, rfl⟩

/-- An update with a restart, up to the restart, when nothing is pending. -/
def firstUpdate (expected content : String) : List Action :=
  [.update ⟨content, revisionOf expected, true, true⟩ true true,
    .proceed, .proceed, .proceed, .proceed]

/-- The restart fails, and the one with the baseline succeeds. -/
def failAndRestore : List Action :=
  [.restart false, .proceed, .restart true, .proceed, .proceed]

theorem rollback_restores_last_good_after_failure :
    ∃ s, Reach (step letterEnv) NoCrashAfterRestart Initial s ∧ s.RolledBack ∧ s.Restored ∧
      s.disk.config = some "a" := by
  obtain ⟨s, hrun, htest⟩ := exists_run (guarded (step letterEnv) NoCrashAfterRestart) runsWithA
    (firstUpdate "a" "b" ++ failAndRestore)
    (fun s => decide (s.reply.bind Reply.rollback = some .succeeded ∧ s.disk.config = some "a"))
    (by decide +kernel)
  obtain ⟨hreported, hconfig⟩ := of_decide_eq_true htest
  have hreach := Reach.of_guarded (fun _ _ h => h) (.init runsWithA_initial) hrun
  have hrolled := rolledBack_iff.mpr hreported
  exact ⟨s, hreach, hrolled, rollback_restores_last_good hreach hrolled, hconfig⟩

/-- `b` is saved and dockerd restarted with it, and the process stops before it
removes the transaction. The restart with `c` fails, and the roll-back that is then
reported as succeeded has gone back to `a`. -/
theorem rollback_returns_to_stale_baseline :
    ∃ s, Reach (step letterEnv) anyStep Initial s ∧ s.RolledBack ∧
      s.goodAtCall = some "b" ∧ s.disk.config = some "a" := by
  obtain ⟨s, hrun, htest⟩ := exists_run (step letterEnv) runsWithA
    (firstUpdate "a" "b" ++ [.restart true, .crash,
      .update ⟨"c", revisionOf "b", true, true⟩ true true, .proceed, .proceed] ++ failAndRestore)
    (fun s => decide (s.reply.bind Reply.rollback = some .succeeded ∧
      s.goodAtCall = some "b" ∧ s.disk.config = some "a"))
    (by decide +kernel)
  obtain ⟨hreported, hgood, hconfig⟩ := of_decide_eq_true htest
  exact ⟨s, .of_run (.init runsWithA_initial) (fun _ _ _ => trivial) hrun,
    rolledBack_iff.mpr hreported, hgood, hconfig⟩

end Zos.Hostd.DockerDaemon
