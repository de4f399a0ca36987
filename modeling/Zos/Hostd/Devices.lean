import Mathlib.Data.List.Basic
import Zos.Hostd.Error

/-!
# Which disks a new pool may take

`assert_devices_available` of `apps/hostd/src/storage/devices.rs`: the disks named in a request
are looked up in the tree that `lsblk` prints, and refused when they are in use.
-/

namespace Zos.Hostd.Devices

/-- A row of `lsblk --json --tree`. What is not a string or not an array counts as absent. -/
inductive Node where
  | mk (path type fstype : Option String) (mountpoints : List (Option String))
      (children : List Node)

def Node.path : Node → Option String
  | .mk path _ _ _ _ => path

def Node.type : Node → Option String
  | .mk _ type _ _ _ => type

def Node.fstype : Node → Option String
  | .mk _ _ fstype _ _ => fstype

def Node.mountpoints : Node → List (Option String)
  | .mk _ _ _ mountpoints _ => mountpoints

def Node.children : Node → List Node
  | .mk _ _ _ _ children => children

/-- What reading the directory `holders` of a disk gives. -/
inductive Holders where
  | missing
  | entries (names : List String)
  | unreadable (error : HostdError)
  deriving DecidableEq, Repr

def raidMember : String := "linux_raid_member"

def Node.hasMount (row : Node) : Bool := row.mountpoints.any fun mount => mount.any (· ≠ "")

def assertNodeUnused (row : Node) (device : String) (allowStaleRaid : Bool) :
    Except HostdError Unit :=
  if row.fstype.isSome ∧ ¬ (allowStaleRaid ∧ row.fstype = some raidMember) ∨ row.hasMount then
    .error (.validation
      ("Block device contains a filesystem or mount and cannot be used: " ++ device))
  else .ok ()

/-- Of two rows with one path the later one is kept. -/
def byPath (rows : List Node) (device : String) : Option Node :=
  rows.reverse.find? (·.path = some device)

def notWholeDisk (device : String) : HostdError :=
  .validation ("Block device is not an available whole disk: " ++ device)

def assertNoHolders (holders : Holders) (device : String) : Except HostdError Unit :=
  match holders with
  | .missing | .entries [] => .ok ()
  | .entries (_ :: _) =>
      .error (.validation
        ("Block device belongs to an active RAID array and cannot be reused: " ++ device))
  | .unreadable error => .error error

/-- One turn of the loop: whether the disk has a stale superblock. -/
def assertDeviceAvailable (rows : List Node) (holders : String → Holders) (device : String) :
    Except HostdError Bool :=
  match byPath rows device with
  | none => .error (notWholeDisk device)
  | some row =>
      if row.type ≠ some "disk" then .error (notWholeDisk device)
      else do
        let stale : Bool := row.fstype = some raidMember
        assertNodeUnused row device stale
        (if stale then assertNoHolders (holders device) device else .ok ())
        row.children.forM fun child => assertNodeUnused child device false
        .ok stale

def pushStale (rows : List Node) (holders : String → Holders) (stale : List String)
    (device : String) : Except HostdError (List String) := do
  let isStale ← assertDeviceAvailable rows holders device
  .ok (if isStale then stale ++ [device] else stale)

/-- `rows` are the `blockdevices` of the output, if it could be read. -/
def assertDevicesAvailable (rows : Option (List Node)) (holders : String → Holders)
    (devices : List String) : Except HostdError (List String) :=
  match rows with
  | none => .error (.operationFailed "Unable to validate block devices")
  | some rows => devices.foldlM (pushStale rows holders) []

end Zos.Hostd.Devices
