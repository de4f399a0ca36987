import Zos.Hostd.ShareApply
import Zos.Lib.Triple

/-!
# What a failed apply leaves behind

Whatever step fails, the ACLs and the services that were tried are known to the rollback
(`Undoable`), and the configuration files are written again from the snapshot. The credentials
are in no snapshot: once a password was hashed, or the mode of the password file was set, a later
failure leaves them changed.
-/

namespace Zos.Hostd.ShareApply

open Zos.Lib

variable {A D : Type} {env : Env A D} {request : Request} {answers : Answers} {host : Host A D}

/-! ## Steps -/

theorem step_spec {P : World A D → Prop} {s : Step} :
    Triple P (step answers s) (fun _ w => P w ∧ answers.fails s = none)
      (fun w => P w ∧ answers.fails s ≠ none) := by
  intro w hw
  unfold step
  cases hfails : answers.fails s with
  | none => exact ⟨hw, rfl⟩
  | some e => exact ⟨hw, nofun⟩

theorem step_keeps {P E : World A D → Prop} {s : Step} (hE : ∀ w, P w → E w) :
    Triple P (step answers s) (fun _ => P) E :=
  step_spec.mono (fun _ h => h) (fun _ _ h => h.1) fun w h => hE w h.1

/-! ## Credentials -/

/-- A password file with another content than before. -/
def Rewritten (host : Host A D) (htpasswd : Option File) : Prop :=
  ∃ file, htpasswd = some file ∧ ∀ old, host.htpasswd = some old → file.content ≠ old.content

/-- What is left of the credentials at whatever step the operation stops. -/
def CredentialsLeft (request : Request) (answers : Answers) (host : Host A D)
    (world : World A D) : Prop :=
  match request.password with
  | none => world.host.samba = host.samba ∧ world.host.htpasswd =
      if answers.fails .setPermissions = none then
        host.htpasswd.map fun file => { file with mode := 0o640 }
      else host.htpasswd
  | some _ =>
      if answers.fails .createDirectory = none ∧ answers.fails .htpasswd = none then
        Rewritten host world.host.htpasswd
      else world.host.samba = host.samba ∧ world.host.htpasswd = host.htpasswd

theorem Rewritten.ne {htpasswd : Option File} (h : Rewritten host htpasswd) :
    htpasswd ≠ host.htpasswd := by
  obtain ⟨file, rfl, hcontent⟩ := h
  exact fun hsame => hcontent file hsame.symm rfl

theorem credentials_same_iff {world : World A D} (h : CredentialsLeft request answers host world) :
    world.host.samba = host.samba ∧ world.host.htpasswd = host.htpasswd ↔
      CredentialsUntouched request answers host := by
  unfold CredentialsLeft at h
  unfold CredentialsUntouched
  cases hpassword : request.password with
  | none =>
      rw [hpassword] at h
      dsimp only at h ⊢
      rw [h.2, and_iff_right h.1]
      by_cases hset : answers.fails .setPermissions = none
      · rw [if_pos hset]
        cases hfile : host.htpasswd with
        | none => simp
        | some file =>
            obtain ⟨content, mode, acl⟩ := file
            simp [hset, eq_comm]
      · simp [hset]
  | some password =>
      rw [hpassword] at h
      dsimp only at h ⊢
      split at h
      · next hboth =>
          refine iff_of_false (fun hsame => h.ne hsame.2) ?_
          simp [hboth.1, hboth.2]
      · next hboth =>
          refine iff_of_true h ?_
          rwa [not_and_or] at hboth

/-- The rest of the world, which the credentials leave alone. -/
def Elsewhere (host : Host A D) (world : World A D) : Prop :=
  world.host.acl = host.acl ∧ world.host.active = host.active ∧ world.transaction = none ∧
    world.attempted = []

theorem setPermissions_rewritten :
    Triple (fun w : World A D => Rewritten host w.host.htpasswd ∧ Elsewhere host w)
      (setPermissions answers)
      (fun _ w => Rewritten host w.host.htpasswd ∧ Elsewhere host w)
      (fun w => Rewritten host w.host.htpasswd ∧ Elsewhere host w) := by
  refine Triple.get_bind fun w hw => ?_
  obtain ⟨file, hfile, hcontent⟩ := hw.1
  rw [hfile]
  exact Triple.bind (step_keeps fun _ h => h ▸ hw) fun _ =>
    Triple.modify fun _ h => h ▸ ⟨⟨_, rfl, hcontent⟩, hw.2⟩

theorem setPermissions_alone (hpassword : request.password = none) :
    Triple (fun w => w = World.start host) (setPermissions answers)
      (fun _ w => CredentialsLeft request answers host w ∧ Elsewhere host w)
      (fun w => CredentialsLeft request answers host w ∧ Elsewhere host w) := by
  rintro w rfl
  have helsewhere : Elsewhere host (World.start host) := ⟨rfl, rfl, rfl, rfl⟩
  have hget (w : World A D) : (get : Script A D (World A D)) w = .ok w w := rfl
  simp only [setPermissions, bind, EStateM.bind, hget, step, CredentialsLeft, hpassword]
  cases hfile : (World.start host).host.htpasswd with
  | none =>
      have hnone : host.htpasswd = none := hfile
      refine ⟨⟨rfl, ?_⟩, helsewhere⟩
      rw [hnone, Option.map_none, ite_self]
      exact hfile
  | some file =>
      have hsome : host.htpasswd = some file := hfile
      cases hset : answers.fails .setPermissions with
      | none =>
          refine ⟨⟨rfl, ?_⟩, helsewhere⟩
          rw [if_pos rfl, hsome]
          rfl
      | some e => exact ⟨⟨rfl, rfl⟩, helsewhere⟩

theorem writeHtpasswd_spec {password : String} (hpassword : request.password = some password) :
    Triple (fun w => w = World.start host) (writeHtpasswd env request answers password)
      (fun _ w => (Rewritten host w.host.htpasswd ∧ Elsewhere host w) ∧
        answers.fails .createDirectory = none ∧ answers.fails .htpasswd = none)
      (fun w => CredentialsLeft request answers host w ∧ Elsewhere host w) := by
  rintro w rfl
  have helsewhere : Elsewhere host (World.start host) := ⟨rfl, rfl, rfl, rfl⟩
  simp only [writeHtpasswd, bind, EStateM.bind, step, CredentialsLeft, hpassword]
  cases hdirectory : answers.fails .createDirectory with
  | some e => exact ⟨by simp [World.start], helsewhere⟩
  | none =>
      cases hhashed : answers.fails .htpasswd with
      | some e => exact ⟨by simp [World.start], helsewhere⟩
      | none =>
          refine ⟨⟨⟨_, rfl, fun old hold => ?_⟩, helsewhere⟩, rfl, rfl⟩
          have hstart : (World.start host).host.htpasswd = some old := hold
          rw [hstart]
          exact env.hashed_content request.username password old

theorem writeSambaPassword_spec {password : String} :
    Triple (fun w : World A D => Rewritten host w.host.htpasswd ∧ Elsewhere host w)
      (writeSambaPassword env request answers password)
      (fun _ w => Rewritten host w.host.htpasswd ∧ Elsewhere host w)
      (fun w => Rewritten host w.host.htpasswd ∧ Elsewhere host w) := by
  unfold writeSambaPassword
  refine Triple.bind (step_keeps fun _ h => h) fun _ => ?_
  refine Triple.bind (Q := fun _ w => Rewritten host w.host.htpasswd ∧ Elsewhere host w) ?_
    fun _ => ?_
  · split
    · exact Triple.pure fun _ h => h
    · exact step_keeps fun _ h => h
  refine Triple.bind (step_keeps fun _ h => h) fun _ => ?_
  refine Triple.bind (Triple.modify
    (Q := fun _ w => Rewritten host w.host.htpasswd ∧ Elsewhere host w) fun _ h => h) fun _ => ?_
  exact Triple.bind (step_keeps fun _ h => h) fun _ => Triple.modify fun _ h => h

theorem applyCredentials_spec :
    Triple (fun w => w = World.start host) (applyCredentials env request answers)
      (fun _ w => CredentialsLeft request answers host w ∧ Elsewhere host w)
      (fun w => CredentialsLeft request answers host w ∧ Elsewhere host w) := by
  unfold applyCredentials
  cases hpassword : request.password with
  | none => exact setPermissions_alone hpassword
  | some password =>
      refine Triple.bind (writeHtpasswd_spec hpassword) fun _ => ?_
      -- from here on the file is another one, whatever happens
      rintro w ⟨hw, hwritten⟩
      have hleft : ∀ w' : World A D, Rewritten host w'.host.htpasswd ∧ Elsewhere host w' →
          CredentialsLeft request answers host w' ∧ Elsewhere host w' := fun w' h => by
        refine ⟨?_, h.2⟩
        rw [CredentialsLeft, hpassword]
        dsimp only
        rw [if_pos hwritten]
        exact h.1
      exact (Triple.bind setPermissions_rewritten fun _ => writeSambaPassword_spec).mono
        (fun _ h => h) (fun _ => hleft) hleft w hw

/-! ## The rest of the operation -/

/-- What the rollback can rely on at whatever step the operation stops. -/
structure Undoable (request : Request) (answers : Answers) (host : Host A D)
    (world : World A D) : Prop where
  credentials : CredentialsLeft request answers host world
  acl : world.transaction.getD world.host.acl = host.acl
  untouched : ∀ service, service ∉ world.attempted.map Prod.fst →
    world.host.active service = host.active service
  attempted : ∀ attempt ∈ world.attempted, attempt.2 = host.active attempt.1

theorem Undoable.of_credentials (w : World A D)
    (h : CredentialsLeft request answers host w ∧ Elsewhere host w) :
    Undoable request answers host w := by
  obtain ⟨hcredentials, hacl, hactive, htransaction, hattempted⟩ := h
  refine ⟨hcredentials, ?_, fun service _ => congrFun hactive service, ?_⟩
  · rw [htransaction]
    exact hacl
  · rw [hattempted]
    exact fun _ hmem => (List.not_mem_nil hmem).elim

theorem prepareAcl_spec :
    Triple (fun w => CredentialsLeft request answers host w ∧ Elsewhere host w)
      (prepareAcl env answers)
      (fun _ w => Undoable request answers host w ∧ w.attempted = [])
      (Undoable request answers host) := by
  refine Triple.bind (step_keeps Undoable.of_credentials) fun _ => Triple.modify fun w hw => ?_
  have hundoable := Undoable.of_credentials w hw
  exact ⟨⟨hundoable.credentials, hw.2.1, hundoable.untouched, hundoable.attempted⟩,
    hw.2.2.2.2⟩

theorem writeFile_spec (contents : Managed → String) (file : Managed) :
    Triple (fun w => Undoable request answers host w ∧ w.attempted = [])
      (writeFile answers contents file)
      (fun _ w => Undoable request answers host w ∧ w.attempted = [])
      (Undoable request answers host) :=
  Triple.bind (step_keeps fun _ h => h.1) fun _ => Triple.modify fun _ ⟨hw, hnone⟩ =>
    ⟨⟨hw.credentials, hw.acl, hw.untouched, hw.attempted⟩, hnone⟩

/-- A service that was not tried yet is as it was. -/
def Untried (request : Request) (answers : Answers) (host : Host A D) (services : List Service)
    (world : World A D) : Prop :=
  Undoable request answers host world ∧ ∀ service ∈ services,
    service ∉ world.attempted.map Prod.fst

/-- Only the service at hand changes, and it is noted. -/
theorem Undoable.attempt {w : World A D} (h : Undoable request answers host w)
    {service : Service} (hnew : service ∉ w.attempted.map Prod.fst) (active : Bool) :
    Undoable request answers host
      { w with
        host := { w.host with active := Function.update w.host.active service active }
        attempted := w.attempted ++ [(service, w.host.active service)] } := by
  refine ⟨h.credentials, h.acl, fun other hother => ?_, fun attempt hattempt => ?_⟩
  · simp only [List.map_append, List.mem_append, List.map_cons, List.map_nil, List.mem_singleton,
      not_or] at hother
    dsimp only
    rw [Function.update_of_ne hother.2]
    exact h.untouched other hother.1
  · obtain hbefore | hnow := List.mem_append.mp hattempt
    · exact h.attempted attempt hbefore
    · obtain rfl := List.mem_singleton.mp hnow
      exact h.untouched service hnew

theorem applyService_spec {service : Service} {rest : List Service} (hrest : service ∉ rest) :
    Triple (Untried request answers host (service :: rest))
      (applyService request answers service)
      (fun _ => Untried request answers host rest) (Undoable request answers host) := by
  refine Triple.bind (step_keeps fun _ h => h.1) fun _ => Triple.get_bind ?_
  rintro w ⟨hw, huntried⟩
  obtain ⟨hnew, hlater⟩ := List.forall_mem_cons.mp huntried
  dsimp only
  split
  · exact Triple.pure fun _ h => h ▸ ⟨hw, hlater⟩
  · have huntried' : ∀ other ∈ rest,
        other ∉ (w.attempted ++ [(service, w.host.active service)]).map Prod.fst := by
      intro other hother hmem
      simp only [List.map_append, List.mem_append, List.map_cons, List.map_nil,
        List.mem_singleton] at hmem
      obtain hbefore | rfl := hmem
      · exact hlater other hother hbefore
      · exact hrest hother
    rintro _ rfl
    simp only [act, bind, EStateM.bind]
    cases answers.fails (.act service) with
    | none => exact ⟨hw.attempt hnew _, huntried'⟩
    | some e => exact hw.attempt hnew _

theorem applyServices_spec {services : List Service} (hnodup : services.Nodup) :
    Triple (Untried request answers host services) (services.forM (applyService request answers))
      (fun _ => Undoable request answers host) (Undoable request answers host) := by
  induction services with
  | nil => exact Triple.pure fun _ h => h.1
  | cons service rest ih =>
      obtain ⟨hrest, hnodup⟩ := List.nodup_cons.mp hnodup
      exact Triple.bind (applyService_spec hrest) fun _ => ih hnodup

theorem operation_spec (env : Env A D) (request : Request) (answers : Answers) (host : Host A D)
    (contents : Managed → String) :
    Triple (fun w => w = World.start host) (operation env request answers contents)
      (fun _ => Undoable request answers host) (Undoable request answers host) := by
  unfold operation
  refine Triple.bind (applyCredentials_spec.mono (fun _ h => h) (fun _ _ h => h)
    Undoable.of_credentials) fun _ => ?_
  refine Triple.bind prepareAcl_spec fun _ => ?_
  refine Triple.bind (Triple.forM_keeps fun file _ => writeFile_spec contents file) fun _ => ?_
  refine Triple.bind ((applyServices_spec (by decide)).mono (fun w ⟨hw, hnone⟩ => ⟨hw, ?_⟩)
    (fun _ _ h => h) fun _ h => h) fun _ => step_keeps fun _ h => h
  rw [hnone]
  exact fun _ _ hmem => List.not_mem_nil hmem

/-! ## The rollback -/

theorem foldl_returnService {was : Service → Bool} {attempts : List (Service × Bool)}
    (h : ∀ attempt ∈ attempts, attempt.2 = was attempt.1) (active : Service → Bool)
    (service : Service) :
    attempts.foldl (returnService answers) active service =
      if service ∈ attempts.map Prod.fst then
        if answers.back service then was service else answers.leftBack service
      else active service := by
  induction attempts generalizing active with
  | nil => rfl
  | cons attempt rest ih =>
      obtain ⟨hattempt, hrest⟩ := List.forall_mem_cons.mp h
      rw [List.foldl_cons, ih hrest, List.map_cons]
      by_cases hmem : service ∈ rest.map Prod.fst
      · rw [if_pos hmem, if_pos (List.mem_cons_of_mem _ hmem)]
      · rw [if_neg hmem, returnService]
        by_cases hservice : service = attempt.1
        · subst hservice
          rw [Function.update_self, if_pos List.mem_cons_self, hattempt]
        · rw [Function.update_of_ne hservice, if_neg]
          simp [hservice, hmem]

theorem services_same_iff {world : World A D} (h : Undoable request answers host world) :
    world.attempted.reverse.foldl (returnService answers) world.host.active = host.active ↔
      ServicesReturn answers world := by
  have hfold : ∀ service,
      world.attempted.reverse.foldl (returnService answers) world.host.active service =
        if service ∈ world.attempted.map Prod.fst then
          if answers.back service then host.active service else answers.leftBack service
        else host.active service := fun service => by
    rw [foldl_returnService fun attempt hattempt =>
      h.attempted attempt (List.mem_reverse.mp hattempt)]
    simp only [List.map_reverse, List.mem_reverse]
    split
    · rfl
    · next hnot => exact h.untouched service hnot
  rw [funext_iff]
  refine ⟨fun hsame attempt hattempt => ?_, fun hreturn service => ?_⟩
  · have hservice := hfold attempt.1
    rw [hsame, if_pos (List.mem_map_of_mem hattempt)] at hservice
    rw [h.attempted attempt hattempt]
    cases hback : answers.back attempt.1 with
    | true => exact .inl rfl
    | false =>
        rw [hback, if_neg (by decide)] at hservice
        exact .inr hservice.symm
  · rw [hfold]
    split
    · next hmem =>
        obtain ⟨attempt, hattempt, rfl⟩ := List.mem_map.mp hmem
        split
        · rfl
        · next hback =>
            rw [(hreturn attempt hattempt).resolve_left hback]
            exact h.attempted attempt hattempt
    · rfl

theorem files_same_iff (host : Host A D) :
    (fun file => (host.files file).map restoredFile) = host.files ↔ FilesPlain host := by
  have hfile : ∀ file : File, restoredFile file = file ↔
      file.mode &&& 0o777 = file.mode ∧ file.acl = [] := fun ⟨content, mode, acl⟩ => by
    simp [restoredFile, eq_comm]
  rw [funext_iff]
  refine forall_congr' fun managed => ?_
  cases host.files managed with
  | none => simp
  | some file => simpa using hfile file

theorem rollback_same_iff {world : World A D} (h : Undoable request answers host world) :
    rollback answers host world = host ↔ FilesPlain host ∧
      CredentialsUntouched request answers host ∧ ServicesReturn answers world := by
  rw [← files_same_iff, ← credentials_same_iff h.credentials, ← services_same_iff h]
  unfold rollback
  rw [h.acl]
  obtain ⟨files, htpasswd, samba, acl, active⟩ := host
  simp only [Host.mk.injEq, true_and]
  exact ⟨fun ⟨hfiles, hhtpasswd, hsamba, hactive⟩ => ⟨hfiles, ⟨hsamba, hhtpasswd⟩, hactive⟩,
    fun ⟨hfiles, ⟨hsamba, hhtpasswd⟩, hactive⟩ => ⟨hfiles, hhtpasswd, hsamba, hactive⟩⟩

theorem failed_apply_changes_nothing_iff (env : Env A D) (request : Request) (answers : Answers)
    (host : Host A D) :
    (∀ e, (applyShares env request answers host).1 = .error e →
      (applyShares env request answers host).2 = host) ↔
    ∀ contents e world, request.rendered = .ok contents →
      operation env request answers contents (World.start host) = .error e world →
      FilesPlain host ∧ CredentialsUntouched request answers host ∧
        ServicesReturn answers world := by
  unfold applyShares
  cases hrendered : request.rendered with
  | error e => exact iff_of_true (fun _ _ => rfl) fun _ _ _ hok => by cases hok
  | ok contents =>
      dsimp only
      cases hrun : operation env request answers contents (World.start host) with
      | ok _ world =>
          refine iff_of_true (fun _ herror => by cases herror) fun _ _ _ hok herror => ?_
          cases hok
          rw [hrun] at herror
          cases herror
      | error e world =>
          have hundoable := (operation_spec env request answers host contents).error rfl hrun
          have hsame := rollback_same_iff hundoable
          refine ⟨fun hunchanged _ _ _ hok herror => ?_, fun hholds _ _ => ?_⟩
          · cases hok
            rw [hrun] at herror
            cases herror
            exact hsame.mp (hunchanged e rfl)
          · exact hsame.mpr (hholds contents e world rfl hrun)

/-- Tools whose salt is fresh; the database counts the passwords that were set. -/
def saltingEnv : Env Unit Nat where
  hashed username _ old := ⟨username ++
    if old.any (·.content = username ++ ":$2y$05$first") then ":$2y$05$second"
    else ":$2y$05$first", 0o644, []⟩
  hashed_content username _ file := by
    by_cases h : file.content = username ++ ":$2y$05$first"
    · simp [h]
    · simpa [h] using Ne.symm h
  addPassword _ _ count := count + 1
  enablePassword _ count := count
  prepared acl := acl

def newPassword : Request where
  username := "share"
  password := some "espresso"
  enabled := false
  shares := []
  rendered := .ok fun _ => ""

def prepareFails : Answers where
  fails := fun step =>
    if step = .prepare then some (.operationFailed "Share ACL prepare failed: ") else none
  userExists := true
  left := fun _ => false
  back := fun _ => true
  leftBack := fun _ => false

def oldPassword : Host Unit Nat where
  files := fun _ => none
  htpasswd := some ⟨"share:$2y$05$first", 0o640, []⟩
  samba := 1
  acl := ()
  active := fun _ => false

/-- The ACLs could not be prepared, and the new password is in both stores. -/
theorem new_password_stays :
    ∃ (env : Env Unit Nat) (request : Request) (answers : Answers) (host : Host Unit Nat),
      (applyShares env request answers host).1 =
        .error (.operationFailed "Share ACL prepare failed: ") ∧
      host.htpasswd = some ⟨"share:$2y$05$first", 0o640, []⟩ ∧
      (applyShares env request answers host).2.htpasswd =
        some ⟨"share:$2y$05$second", 0o640, []⟩ ∧
      host.samba = 1 ∧ (applyShares env request answers host).2.samba = 2 :=
  ⟨saltingEnv, newPassword, prepareFails, oldPassword, rfl, rfl, by decide +kernel, rfl, rfl⟩

end Zos.Hostd.ShareApply
