import Mathlib.Data.List.Basic
import Zos.Hostd.Error

/-!
# Deleting a storage pool

`delete_pool` of `apps/hostd/src/storage.rs`, with the checks of
`storage/validation.rs`, `storage/devices.rs` and the edit of `storage/fstab.rs`. The
host has assembled md arrays, which are named by device paths and made of member
devices, and a mount table with the newest mount first. `umount` takes the newest
mount of its target away. What is relied on of mdadm stands in `Mdadm`. Any command may
also fail for reasons of its own.

The outcome records what the commands have touched. Blanks are ASCII blanks.
-/

namespace Zos.Hostd.StoragePool

/-! ## Requests -/

inductive StorageOperation where
  | createPool (name raidLevel : String) (devices : List String)
      (filesystem mountpoint risk : String)
  | deletePool (name mdDevice : String) (devices : List String) (mountpoint risk : String)
  deriving DecidableEq, Repr

def isNameChar (c : Char) : Bool := c.isLower || c.isDigit || c = '_' || c = '-'

def isPoolName (value : String) : Bool :=
  value.utf8ByteSize ≤ 32 &&
    match value.toList with
    | [] => false
    | first :: rest => first.isLower && rest.all isNameChar

def safeDeviceName (value : List Char) : Bool :=
  value.all fun c => c.isAlphanum || ['.', '_', '-'].contains c

/-- `strip_prefix`. -/
def stripStart (start : String) (value : List Char) : Option (List Char) :=
  if start.toList.isPrefixOf value then some (value.drop start.toList.length) else none

def isDevicePath (value : String) : Bool :=
  match stripStart "/dev/" value.toList with
  | some name => name ≠ [] && !name.contains '/' && safeDeviceName name
  | none => false

def isMdadmPath (value : String) : Bool :=
  match stripStart "/dev/md" value.toList with
  | none => false
  | some suffix =>
      (suffix ≠ [] && suffix.all Char.isDigit) ||
        match stripStart "/" suffix with
        | some name => name ≠ [] && !name.contains '/' && safeDeviceName name
        | none => false

def invalidRequest : HostdError := .validation "Invalid storage operation request"

/-- The part of `validate_operation` that both operations share. -/
def validateShared (name : String) (devices : List String) (mountpoint risk : String) : Bool :=
  isPoolName name && name ≠ "backup" && risk = "high" && devices.all isDevicePath &&
    decide devices.Nodup && mountpoint = "/zos/data/" ++ name

def minimumDevices : String → Option Nat
  | "0" | "1" => some 2
  | "5" => some 3
  | "6" | "10" => some 4
  | _ => none

def validateOperation : StorageOperation → Except HostdError Unit
  | .createPool name raidLevel devices filesystem mountpoint risk =>
      if !validateShared name devices mountpoint risk then .error invalidRequest
      else
        match minimumDevices raidLevel with
        | none => .error invalidRequest
        | some minimum =>
            if (filesystem ≠ "ext4" ∧ filesystem ≠ "btrfs") ∨ devices.length < minimum ∨
                (raidLevel = "10" ∧ devices.length % 2 ≠ 0) then
              .error (.validation ("Invalid disk count for RAID " ++ raidLevel))
            else .ok ()
  | .deletePool name mdDevice devices mountpoint risk =>
      if !validateShared name devices mountpoint risk then .error invalidRequest
      else if devices = [] ∨ !isMdadmPath mdDevice then .error invalidRequest
      else .ok ()

/-! ## The host -/

structure MdArray where
  node : String
  /-- The links to the node, as `/dev/md/name`. -/
  links : List String
  members : List String
  deriving DecidableEq, Repr

def MdArray.names (array : MdArray) : List String := array.node :: array.links

structure Mount where
  target : String
  source : String
  deriving DecidableEq, Repr

structure Host where
  arrays : List MdArray
  mounts : List Mount
  fstab : String
  deriving DecidableEq, Repr

/-- The members of the array are named without blanks, as device nodes are. -/
def MdArray.Plain (array : MdArray) : Prop :=
  ∀ device ∈ array.members, ∀ c ∈ device.toList, c.isWhitespace = false

/-- A path names one array, and a device is a member of one array. -/
structure Host.Valid (host : Host) : Prop where
  plain : ∀ a ∈ host.arrays, a.Plain
  names : ∀ a ∈ host.arrays, ∀ b ∈ host.arrays, ∀ path ∈ a.names, path ∈ b.names → a = b
  members : ∀ a ∈ host.arrays, ∀ b ∈ host.arrays, ∀ device ∈ a.members,
    device ∈ b.members → a = b

def Host.findArray (host : Host) (path : String) : Option MdArray :=
  host.arrays.find? fun array => array.names.contains path

/-- The mount that `umount` takes away. -/
def Host.topMount (host : Host) (target : String) : Option Mount :=
  host.mounts.find? (·.target = target)

def Host.umount (host : Host) (target : String) : Host :=
  { host with mounts := host.mounts.eraseP (·.target = target) }

/-- Mounted, or part of another array. -/
def Host.busy (host : Host) (array : MdArray) : Bool :=
  host.mounts.any (fun mount => array.names.contains mount.source) ||
    host.arrays.any fun other => other.members.any array.names.contains

/-! ## `mdadm --detail --export` -/

def trimBlanks (text : List Char) : List Char :=
  ((text.dropWhile Char.isWhitespace).reverse.dropWhile Char.isWhitespace).reverse

def splitOnce (separator : Char) (text : List Char) : Option (List Char × List Char) :=
  match text.dropWhile (· ≠ separator) with
  | [] => none
  | _ :: rest => some (text.takeWhile (· ≠ separator), rest)

/-- The device of a line `MD_DEVICE_…_DEV=…`. -/
def memberOfLine (line : List Char) : Option String :=
  (splitOnce '=' line).bind fun (key, device) =>
    if "MD_DEVICE_".toList.isPrefixOf key && "_DEV".toList.isSuffixOf key then
      some (String.ofList (trimBlanks device))
    else none

def listedMembers (output : String) : List String :=
  (output.toList.splitOn '\n').filterMap memberOfLine

structure Mdadm where
  detail : MdArray → String
  /-- It prints a line for each member of an array and no other such line. -/
  lists : ∀ array, array.Plain → ∀ device,
    device ∈ listedMembers (detail array) ↔ device ∈ array.members
  stop : Host → String → Except String MdArray
  /-- It refuses an array that is in use. -/
  stops : ∀ host path array,
    stop host path = .ok array ↔ host.findArray path = some array ∧ host.busy array = false
  zeroSuperblock : Host → List String → List String
  /-- It leaves the members of assembled arrays alone. -/
  zeroes : ∀ host devices device, device ∈ zeroSuperblock host devices ↔
    device ∈ devices ∧ ∀ array ∈ host.arrays, device ∉ array.members

/-! ## `/etc/fstab` -/

def words (text : List Char) : List (List Char) :=
  (text.splitOnP Char.isWhitespace).filter (· ≠ [])

/-- The components of a path, by which paths are compared. -/
def components (path : List Char) : Bool × List (List Char) :=
  (path.head? = some '/', (path.splitOn '/').filter fun name => name ≠ [] && name ≠ ['.'])

def mountpointFromLine (line : List Char) : Option (List Char) :=
  let trimmed := trimBlanks line
  if trimmed.head? = none ∨ trimmed.head? = some '#' then none else (words trimmed)[1]?

def removeEntry (mountpoint current : String) : String :=
  let lines := (current.toList.splitOn '\n').filter fun line =>
    (mountpointFromLine line).map components ≠ some (components mountpoint.toList)
  let text := List.intercalate ['\n'] lines
  String.ofList (if current.toList.getLast? = some '\n' ∧ text.getLast? ≠ some '\n' then
    text ++ ['\n'] else text)

/-! ## Deletion -/

inductive Command where
  | detail | readFstab | daemonReload | umount | stop | settle | zeroSuperblock | mount
  deriving DecidableEq, Repr

/-- What a command prints when it fails. -/
structure Runner where
  fails : Command → Option String

structure DeletedPool where
  name : String
  mountpoint : String
  mdDevice : String
  devices : List String
  deriving DecidableEq, Repr

structure Outcome where
  result : Except HostdError DeletedPool
  host : Host
  unmounted : Option Mount
  stopped : Option MdArray
  zeroed : List String

section

variable (mdadm : Mdadm) (runner : Runner)

def assertArrayMembers (host : Host) (mdDevice : String) (devices : List String) :
    Except HostdError Unit :=
  match runner.fails .detail, host.findArray mdDevice with
  | some stderr, _ => .error (.operationFailed stderr)
  | none, none => .error (.operationFailed ("mdadm: cannot open " ++ mdDevice))
  | none, some array =>
      let actual := listedMembers (mdadm.detail array)
      if actual = [] ∨ ¬ (actual ⊆ devices ∧ devices ⊆ actual) then
        .error (.conflict
          "RAID members changed; refresh storage inventory before deleting the pool")
      else .ok ()

/-- A failure before the array was stopped: the entry and the mount are put back. -/
def undone (host previous : Host) (unmounted : Option Mount) (stderr : String) : Outcome where
  result := .error (.operationFailed stderr)
  host := { host with
    fstab := previous.fstab
    mounts := if runner.fails .mount = none then unmounted.toList ++ host.mounts else host.mounts }
  unmounted := unmounted
  stopped := none
  zeroed := []

/-- From `mdadm --stop` on. -/
def stopAndZero (previous host : Host) (mount : Mount) (pool : DeletedPool) : Outcome :=
  match runner.fails .stop, mdadm.stop host pool.mdDevice with
  | some stderr, _ | none, .error stderr => undone runner host previous (some mount) stderr
  | none, .ok array =>
      let host := { host with arrays := host.arrays.filter (· ≠ array) }
      match runner.fails .settle with
      | some stderr => ⟨.error (.operationFailed stderr), host, some mount, some array, []⟩
      | none =>
          let zeroed := mdadm.zeroSuperblock host pool.devices
          match runner.fails .zeroSuperblock with
          | some stderr =>
              ⟨.error (.operationFailed stderr), host, some mount, some array, zeroed⟩
          | none => ⟨.ok pool, host, some mount, some array, zeroed⟩

def deletePool (host : Host) (pool : DeletedPool) : Outcome :=
  match assertArrayMembers mdadm runner host pool.mdDevice pool.devices with
  | .error error => ⟨.error error, host, none, none, []⟩
  | .ok () =>
      match runner.fails .readFstab with
      | some stderr => ⟨.error (.operationFailed stderr), host, none, none, []⟩
      | none =>
          let edited := { host with fstab := removeEntry pool.mountpoint host.fstab }
          match runner.fails .daemonReload, runner.fails .umount,
              edited.topMount pool.mountpoint with
          | some stderr, _, _ => undone runner edited host none stderr
          | none, some stderr, _ => undone runner edited host none stderr
          | none, none, none =>
              undone runner edited host none ("umount: " ++ pool.mountpoint ++ ": not mounted.")
          | none, none, some mount =>
              stopAndZero mdadm runner host (edited.umount pool.mountpoint) mount pool

end

end Zos.Hostd.StoragePool
