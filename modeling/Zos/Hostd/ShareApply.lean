import Mathlib.Logic.Function.Basic
import Zos.Hostd.Error

/-!
# Applying share settings

`apply_with_options` of `apps/hostd/src/shares.rs`, with `apply_credentials` of
`shares/credentials.rs` and the snapshot of `shares/files.rs`. Validation and rendering come
first and change nothing; then the credentials, the ACLs of the shared files, the six
configuration files and the services are changed one after the other, and any step may fail. A
failed step changes nothing, apart from a service, which may be in any state after a failed
command. The restoring writes and the rollback of the ACLs succeed.

The tools are parameters. A file that is replaced is a new one, without the entries its ACL had.
Of `htpasswd` it is known that the hash it writes is salted, so that the file is another one. The
state of the ACLs of the shared files and of Samba's password database are left open.
-/

namespace Zos.Hostd.ShareApply

structure File where
  content : String
  mode : Nat
  /-- The entries of its ACL beyond the mode. -/
  acl : List String
  deriving DecidableEq, Repr

/-- The configuration files, by the fields of `SharePaths`. -/
inductive Managed where
  | sambaConfig | webdavSite | ftpConfig | nfsExports | dlnaConfig | ftpPam
  deriving DecidableEq, Repr

def managedFiles : List Managed :=
  [.sambaConfig, .webdavSite, .ftpConfig, .nfsExports, .dlnaConfig, .ftpPam]

def Managed.mode : Managed → Nat
  | .webdavSite | .dlnaConfig => 0o644
  | _ => 0o640

inductive Service where
  | smbd | nmbd | webdav | vsftpd | nfsServer | minidlna
  deriving DecidableEq, Repr

def allServices : List Service := [.smbd, .nmbd, .webdav, .vsftpd, .nfsServer, .minidlna]

/-- Which protocols of a share are enabled. -/
structure ShareProtocols where
  smb : Bool
  webdav : Bool
  ftp : Bool
  nfs : Bool
  dlna : Bool
  deriving DecidableEq, Repr

/-- The request, with what validation and rendering make of it. -/
structure Request where
  username : String
  password : Option String
  enabled : Bool
  shares : List ShareProtocols
  rendered : Except HostdError (Managed → String)

/-- Whether `services_for_settings` has the service. -/
def Request.serves (request : Request) (service : Service) : Bool :=
  request.enabled && request.shares.any fun share =>
    match service with
    | .smbd | .nmbd => share.smb
    | .webdav => share.webdav
    | .vsftpd => share.ftp
    | .nfsServer => share.nfs
    | .minidlna => share.dlna

inductive ServiceAction where
  | restart | reloadOrRestart | stop | tryReloadOrRestart
  deriving DecidableEq, Repr

def startAction : Service → ServiceAction
  | .vsftpd => .restart
  | _ => .reloadOrRestart

def serviceAction (request : Request) (service : Service) : ServiceAction :=
  if request.serves service then startAction service
  else
    match service with
    | .webdav | .vsftpd | .minidlna => .stop
    | _ => .tryReloadOrRestart

/-- The action is also run where the service is not active. -/
def ServiceAction.starts : ServiceAction → Bool
  | .restart | .reloadOrRestart => true
  | _ => false

/-- `A` are the ACLs of the shared files, `D` is the password database of Samba. -/
structure Host (A D : Type) where
  files : Managed → Option File
  htpasswd : Option File
  samba : D
  acl : A
  active : Service → Bool

/-- What the tools write. -/
structure Env (A D : Type) where
  hashed : (username password : String) → Option File → File
  hashed_content : ∀ username password file,
    (hashed username password (some file)).content ≠ file.content
  addPassword : (username password : String) → D → D
  enablePassword : (username : String) → D → D
  prepared : A → A

inductive Step where
  | createDirectory | htpasswd | setPermissions | id | useradd | addPassword | enablePassword
  | prepare | write (file : Managed) | isActive (service : Service) | act (service : Service)
  | commit
  deriving DecidableEq, Repr

structure Answers where
  fails : Step → Option HostdError
  /-- What `id -u` says about the user. -/
  userExists : Bool
  /-- The state of a service after the action on it failed. -/
  left : Service → Bool
  /-- Whether the action of the rollback succeeds, and the state of the service if it does not. -/
  back : Service → Bool
  leftBack : Service → Bool

/-- The host and the variables of the function. -/
structure World (A D : Type) where
  host : Host A D
  /-- What the transaction of the ACL script has saved. -/
  transaction : Option A
  attempted : List (Service × Bool)

def World.start {A D : Type} (host : Host A D) : World A D := ⟨host, none, []⟩

abbrev Script (A D : Type) := EStateM HostdError (World A D)

section

variable {A D : Type} (env : Env A D) (request : Request) (answers : Answers)

def step (step : Step) : Script A D Unit :=
  match answers.fails step with
  | none => pure ()
  | some e => throw e

def onHost (f : Host A D → Host A D) : Script A D Unit :=
  modify fun world => { world with host := f world.host }

def writeHtpasswd (password : String) : Script A D Unit := do
  step answers .createDirectory
  step answers .htpasswd
  onHost fun host => { host with
    htpasswd := some (env.hashed request.username password host.htpasswd) }

/-- The mode is set with and without a new password. -/
def setPermissions : Script A D Unit := do
  let world ← get
  match world.host.htpasswd with
  | none => pure ()
  | some file =>
      step answers .setPermissions
      onHost fun host => { host with htpasswd := some { file with mode := 0o640 } }

def writeSambaPassword (password : String) : Script A D Unit := do
  step answers .id
  (if answers.userExists then pure () else step answers .useradd)
  step answers .addPassword
  onHost fun host => { host with samba := env.addPassword request.username password host.samba }
  step answers .enablePassword
  onHost fun host => { host with samba := env.enablePassword request.username host.samba }

def applyCredentials : Script A D Unit :=
  match request.password with
  | none => setPermissions answers
  | some password => do
      writeHtpasswd env request answers password
      setPermissions answers
      writeSambaPassword env request answers password

/-- `acl::prepare`, which undoes its own changes where it fails. -/
def prepareAcl : Script A D Unit := do
  step answers .prepare
  modify fun world => { world with
    host := { world.host with acl := env.prepared world.host.acl }
    transaction := some world.host.acl }

def writeFile (contents : Managed → String) (file : Managed) : Script A D Unit := do
  step answers (.write file)
  onHost fun host => { host with
    files := Function.update host.files file (some ⟨contents file, file.mode, []⟩) }

/-- The service is active after each action that succeeds, apart from `stop`. -/
def act (service : Service) (action : ServiceAction) : Script A D Unit :=
  match answers.fails (.act service) with
  | none => onHost fun host => { host with
      active := Function.update host.active service (action ≠ .stop) }
  | some e => do
      onHost fun host => { host with
        active := Function.update host.active service (answers.left service) }
      throw e

def applyService (service : Service) : Script A D Unit := do
  step answers (.isActive service)
  let world ← get
  let wasActive := world.host.active service
  let action := serviceAction request service
  if !action.starts && !wasActive then pure ()
  else
    modify fun world => { world with attempted := world.attempted ++ [(service, wasActive)] }
    act answers service action

def operation (contents : Managed → String) : Script A D Unit := do
  applyCredentials env request answers
  prepareAcl env answers
  managedFiles.forM (writeFile answers contents)
  allServices.forM (applyService request answers)
  step answers .commit

/-- A file of the snapshot, written again. -/
def restoredFile (file : File) : File := ⟨file.content, file.mode &&& 0o777, []⟩

/-- The service is started again or stopped, as it was. -/
def returnService (active : Service → Bool) (attempt : Service × Bool) : Service → Bool :=
  Function.update active attempt.1
    (if answers.back attempt.1 then attempt.2 else answers.leftBack attempt.1)

def rollback (before : Host A D) (world : World A D) : Host A D :=
  { world.host with
    files := fun file => (before.files file).map restoredFile
    acl := world.transaction.getD world.host.acl
    active := world.attempted.reverse.foldl (returnService answers) world.host.active }

def applyShares (host : Host A D) : Except HostdError Unit × Host A D :=
  match request.rendered with
  | .error e => (.error e, host)
  | .ok contents =>
      match operation env request answers contents (World.start host) with
      | .ok () world => (.ok (), world.host)
      | .error e world => (.error e, rollback answers host world)

/-! ## When nothing changes -/

/-- What a restored file has is what it had. -/
def FilesPlain (host : Host A D) : Prop :=
  ∀ managed file, host.files managed = some file → file.mode &&& 0o777 = file.mode ∧ file.acl = []

/-- No new password was written, and the mode of the old file is the one that is set. -/
def CredentialsUntouched (host : Host A D) : Prop :=
  match request.password with
  | some _ => answers.fails .createDirectory ≠ none ∨ answers.fails .htpasswd ≠ none
  | none => answers.fails .setPermissions = none →
      ∀ file, host.htpasswd = some file → file.mode = 0o640

/-- The rollback of each service succeeds, or leaves it as it was before. -/
def ServicesReturn (world : World A D) : Prop :=
  ∀ attempt ∈ world.attempted,
    answers.back attempt.1 = true ∨ answers.leftBack attempt.1 = attempt.2

end

end Zos.Hostd.ShareApply
