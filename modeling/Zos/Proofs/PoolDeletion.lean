import Zos.Hostd.StoragePool
import Zos.Lib.Rows

/-!
# What deleting a pool destroys

The request gives the name of the pool, its array and the members of the array as
separate fields. The checks tie the mountpoint to the name and the members to the
array, and nothing ties the array to the mountpoint. So the mountpoint of one pool is
unmounted and the array of another one is stopped and wiped, unless the kernel still
holds that array; it does not when the array is assembled but not mounted.
-/

namespace Zos.Hostd.StoragePool

open Zos.Lib

variable {mdadm : Mdadm} {runner : Runner} {host : Host} {pool : DeletedPool}

/-- Once a mount was taken away, only the array that was mounted there is touched. -/
structure DestroysOnly (host : Host) (outcome : Outcome) : Prop where
  stopped : ∀ mount ∈ outcome.unmounted, ∀ array ∈ outcome.stopped, mount.source ∈ array.names
  zeroed : ∀ mount ∈ outcome.unmounted, ∀ device ∈ outcome.zeroed,
    ∃ array ∈ host.arrays, mount.source ∈ array.names ∧ device ∈ array.members
  others : ∀ mount ∈ outcome.unmounted, ∀ array ∈ host.arrays, mount.source ∉ array.names →
    outcome.stopped ≠ some array ∧ ∀ device ∈ array.members, device ∉ outcome.zeroed

/-- The array of the request is the one at the mountpoint, or it is in use, or nothing
is mounted there. -/
def Consistent (host : Host) (pool : DeletedPool) : Prop :=
  ∀ mount ∈ host.topMount pool.mountpoint, ∀ array ∈ host.findArray pool.mdDevice,
    mount.source ∈ array.names ∨ host.busy array = true

def DeletedPool.operation (pool : DeletedPool) (risk : String) : StorageOperation :=
  .deletePool pool.name pool.mdDevice pool.devices pool.mountpoint risk

/-! ## The host -/

theorem Host.findArray_spec {path : String} {array : MdArray}
    (h : host.findArray path = some array) : array ∈ host.arrays ∧ path ∈ array.names := by
  refine ⟨List.mem_of_find?_eq_some h, ?_⟩
  simpa using List.find?_some h

theorem Host.busy_umount {target : String} {array : MdArray} {mount : Mount}
    (htop : host.topMount target = some mount) (hother : mount.source ∉ array.names) :
    (host.umount target).busy array = host.busy array := by
  have hfails : array.names.contains mount.source = false := by simpa using hother
  rw [Host.busy, Host.busy, Host.umount, any_eraseP htop hfails]

/-! ## Deletion -/

theorem assertArrayMembers_ok {mdDevice : String} {devices : List String}
    (hvalid : host.Valid)
    (h : assertArrayMembers mdadm runner host mdDevice devices = .ok ()) :
    ∃ array, host.findArray mdDevice = some array ∧
      ∀ device, device ∈ devices ↔ device ∈ array.members := by
  rw [assertArrayMembers] at h
  split at h
  · cases h
  · cases h
  · next array _ hfind =>
      refine ⟨array, hfind, fun device => ?_⟩
      dsimp only at h
      split at h
      · cases h
      · next hsame =>
          obtain ⟨-, hsame⟩ := not_or.mp hsame
          obtain ⟨hactual, hdevices⟩ := not_not.mp hsame
          rw [← mdadm.lists array (hvalid.plain array (Host.findArray_spec hfind).1)]
          exact ⟨fun hd => hdevices hd, fun hd => hactual hd⟩

/-- Nothing is stopped or wiped. -/
theorem destroysOnly_of_spared {outcome : Outcome} (hstopped : outcome.stopped = none)
    (hzeroed : outcome.zeroed = []) : DestroysOnly host outcome where
  stopped _ _ array harray := by
    rw [hstopped] at harray
    cases harray
  zeroed _ _ device hdevice := by
    rw [hzeroed] at hdevice
    cases hdevice
  others _ _ array _ _ := by simp [hstopped, hzeroed]

/-- The array that was mounted is stopped, and some of its members are wiped. -/
theorem destroysOnly_of_mounted {outcome : Outcome} {mount : Mount} {array : MdArray}
    (hvalid : host.Valid) (hmem : array ∈ host.arrays) (hsource : mount.source ∈ array.names)
    (hunmounted : outcome.unmounted = some mount) (hstopped : outcome.stopped = some array)
    (hzeroed : ∀ device ∈ outcome.zeroed, device ∈ array.members) :
    DestroysOnly host outcome := by
  refine ⟨?_, ?_, ?_⟩
  · intro m hm a ha
    rw [hunmounted, Option.mem_some] at hm
    rw [hstopped, Option.mem_some] at ha
    rw [← hm, ← ha]
    exact hsource
  · intro m hm device hdevice
    rw [hunmounted, Option.mem_some] at hm
    exact ⟨array, hmem, hm ▸ hsource, hzeroed device hdevice⟩
  · intro m hm other hother hnot
    rw [hunmounted, Option.mem_some] at hm
    have hne : array ≠ other := fun heq => hnot (heq ▸ hm ▸ hsource)
    refine ⟨fun heq => hne (Option.some.inj (hstopped.symm.trans heq)), fun device hd hz => ?_⟩
    exact hne (hvalid.members array hmem other hother device (hzeroed device hz) hd)

theorem stopAndZero_destroysOnly {previous : Host} {mount : Mount} {array : MdArray}
    (hvalid : previous.Valid) (hmem : array ∈ previous.arrays)
    (hdevices : ∀ device, device ∈ pool.devices ↔ device ∈ array.members)
    (hfind : host.findArray pool.mdDevice = some array)
    (hready : mount.source ∈ array.names ∨ host.busy array = true) :
    DestroysOnly previous (stopAndZero mdadm runner previous host mount pool) := by
  have hwiped (rest : Host) : ∀ device ∈ mdadm.zeroSuperblock rest pool.devices,
      device ∈ array.members :=
    fun device hd => (hdevices device).mp ((mdadm.zeroes _ _ _).mp hd).1
  rw [stopAndZero]
  split
  · exact destroysOnly_of_spared rfl rfl
  · exact destroysOnly_of_spared rfl rfl
  · next found _ hstop =>
      obtain ⟨hfound, hfree⟩ := (mdadm.stops _ _ _).mp hstop
      cases hfind.symm.trans hfound
      have hsource := hready.resolve_right (by simp [hfree])
      dsimp only
      split
      · exact destroysOnly_of_mounted hvalid hmem hsource rfl rfl (by simp)
      · split
        · exact destroysOnly_of_mounted hvalid hmem hsource rfl rfl (hwiped _)
        · exact destroysOnly_of_mounted hvalid hmem hsource rfl rfl (hwiped _)

theorem deletePool_destroysOnly (hvalid : host.Valid) (hconsistent : Consistent host pool)
    (hassert : assertArrayMembers mdadm runner host pool.mdDevice pool.devices = .ok ()) :
    DestroysOnly host (deletePool mdadm runner host pool) := by
  obtain ⟨array, hfind, hdevices⟩ := assertArrayMembers_ok hvalid hassert
  rw [deletePool, hassert]
  dsimp only
  split
  · exact destroysOnly_of_spared rfl rfl
  · split
    · exact destroysOnly_of_spared rfl rfl
    · exact destroysOnly_of_spared rfl rfl
    · exact destroysOnly_of_spared rfl rfl
    · next mount _ _ htop =>
        refine stopAndZero_destroysOnly hvalid (Host.findArray_spec hfind).1 hdevices hfind ?_
        by_cases hsource : mount.source ∈ array.names
        · exact .inl hsource
        · right
          rw [Host.busy_umount htop hsource]
          exact (hconsistent mount htop array hfind).resolve_left hsource

/-- Every command does what it can. -/
def steadyRunner : Runner := ⟨fun _ => none⟩

theorem consistent_of_destroysOnly
    (hassert : assertArrayMembers mdadm steadyRunner host pool.mdDevice pool.devices = .ok ())
    (h : DestroysOnly host (deletePool mdadm steadyRunner host pool)) :
    Consistent host pool := by
  intro mount htop array hfind
  by_contra hneither
  obtain ⟨hsource, hbusy⟩ := not_or.mp hneither
  rw [Option.mem_def] at htop hfind
  -- the edit of `/etc/fstab` changes no mount and no array
  have htop' : Host.topMount { host with fstab := removeEntry pool.mountpoint host.fstab }
      pool.mountpoint = some mount := htop
  have hstop : mdadm.stop (Host.umount
      { host with fstab := removeEntry pool.mountpoint host.fstab } pool.mountpoint)
      pool.mdDevice = .ok array := by
    refine (mdadm.stops _ _ _).mpr ⟨hfind, ?_⟩
    rw [Host.busy_umount htop' hsource]
    exact Bool.not_eq_true _ ▸ hbusy
  have hrun : (deletePool mdadm steadyRunner host pool).unmounted = some mount ∧
      (deletePool mdadm steadyRunner host pool).stopped = some array := by
    rw [deletePool, hassert]
    simp only [steadyRunner, htop', stopAndZero, hstop, and_self]
  exact hsource (h.stopped mount hrun.1 array hrun.2)

/-- A request whose members are those of its array destroys the pool at its mountpoint
and nothing else, whichever of the commands fail, exactly when that array is the one at
the mountpoint, or is in use, or when nothing is mounted there. -/
theorem deletePool_destroysOnly_iff (hvalid : host.Valid)
    (hassert : assertArrayMembers mdadm steadyRunner host pool.mdDevice pool.devices = .ok ()) :
    (∀ runner, DestroysOnly host (deletePool mdadm runner host pool)) ↔ Consistent host pool := by
  constructor
  · intro h
    exact consistent_of_destroysOnly hassert (h steadyRunner)
  · intro hconsistent runner
    cases hdetail : assertArrayMembers mdadm runner host pool.mdDevice pool.devices with
    | ok => exact deletePool_destroysOnly hvalid hconsistent hdetail
    | error error =>
        rw [deletePool, hdetail]
        exact destroysOnly_of_spared rfl rfl

/-! ## Two arrays -/

/-- One line for each member. -/
def printMembers (array : MdArray) : String :=
  String.ofList (List.intercalate ['\n']
    (array.members.map fun device => "MD_DEVICE_x_DEV=".toList ++ device.toList))

theorem trimBlanks_of_plain {text : List Char} (h : ∀ c ∈ text, c.isWhitespace = false) :
    trimBlanks text = text := by
  have hdrop : ∀ {l : List Char}, (∀ c ∈ l, c.isWhitespace = false) →
      l.dropWhile Char.isWhitespace = l := by
    intro l hl
    cases l with
    | nil => rfl
    | cons c l => rw [List.dropWhile_cons_of_neg (by simp [hl c List.mem_cons_self])]
  rw [trimBlanks, hdrop h, hdrop fun c hc => h c (List.mem_reverse.mp hc), List.reverse_reverse]

theorem memberOfLine_printed {device : String}
    (h : ∀ c ∈ device.toList, c.isWhitespace = false) :
    memberOfLine ("MD_DEVICE_x_DEV=".toList ++ device.toList) = some device := by
  have hsplit : splitOnce '=' ("MD_DEVICE_x_DEV=".toList ++ device.toList) =
      some ("MD_DEVICE_x_DEV".toList, device.toList) := rfl
  rw [memberOfLine, hsplit, Option.bind_some]
  dsimp only
  rw [if_pos (by decide), trimBlanks_of_plain h, String.ofList_toList]

theorem listedMembers_printMembers {array : MdArray} (h : array.Plain) :
    listedMembers (printMembers array) = array.members := by
  rw [listedMembers, printMembers, String.toList_ofList]
  cases hmembers : array.members with
  | nil => rfl
  | cons first rest =>
      rw [← hmembers, List.splitOn_intercalate, List.filterMap_map]
      · refine (List.filterMap_congr fun device hd => ?_).trans List.filterMap_some
        exact memberOfLine_printed (h device hd)
      · -- a line holds no line break
        intro line hline hbreak
        obtain ⟨device, hd, rfl⟩ := List.mem_map.mp hline
        rcases List.mem_append.mp hbreak with hkey | hdevice
        · exact absurd hkey (by decide)
        · exact absurd (h device hd _ hdevice) (by decide)
      · simp [hmembers]

def plainMdadm : Mdadm where
  detail := printMembers
  lists array hplain device := by rw [listedMembers_printMembers hplain]
  stop host path :=
    match host.findArray path with
    | none => .error ("mdadm: error opening " ++ path)
    | some array =>
        if host.busy array then .error ("mdadm: Cannot get exclusive access to " ++ path)
        else .ok array
  stops host path array := by
    cases host.findArray path with
    | none => simp
    | some found => grind
  zeroSuperblock host devices := devices.filter fun device =>
    !host.arrays.any fun array => array.members.contains device
  zeroes host devices device := by simp

def arrayA : MdArray := ⟨"/dev/md1", ["/dev/md/a"], ["/dev/sda", "/dev/sdb"]⟩

def arrayB : MdArray := ⟨"/dev/md2", ["/dev/md/b"], ["/dev/sdc", "/dev/sdd"]⟩

/-- Both arrays are assembled, and only the first is mounted. -/
def twoArrays : Host := ⟨[arrayA, arrayB], [⟨"/zos/data/a", "/dev/md1"⟩], ""⟩

theorem twoArrays_valid : twoArrays.Valid where
  plain := by simp [twoArrays, MdArray.Plain, arrayA, arrayB]
  names := by decide
  members := by decide

/-- The request for the pool at `/zos/data/a`, with its own array. -/
def deleteA : DeletedPool := ⟨"a", "/zos/data/a", "/dev/md1", arrayA.members⟩

/-- The same mountpoint, with the other array. -/
def deleteMixed : DeletedPool := ⟨"a", "/zos/data/a", "/dev/md/b", arrayB.members⟩

theorem deletePool_destroysOnly_own_array :
    validateOperation (deleteA.operation "high") = .ok () ∧
      ∀ runner, DestroysOnly twoArrays (deletePool plainMdadm runner twoArrays deleteA) := by
  refine ⟨by decide, (deletePool_destroysOnly_iff twoArrays_valid (by decide)).mpr ?_⟩
  intro mount hmount array harray
  rw [show twoArrays.topMount deleteA.mountpoint = some ⟨"/zos/data/a", "/dev/md1"⟩ by decide,
    Option.mem_some] at hmount
  rw [show twoArrays.findArray deleteA.mdDevice = some arrayA by decide,
    Option.mem_some] at harray
  rw [← hmount, ← harray]
  exact .inl (by decide)

/-- The pool `a` is unmounted, and the array `b`, which is not mounted, is stopped and
its members are wiped. -/
theorem deletePool_destroys_other_array :
    validateOperation (deleteMixed.operation "high") = .ok () ∧
      assertArrayMembers plainMdadm steadyRunner twoArrays deleteMixed.mdDevice
        deleteMixed.devices = .ok () ∧
      (deletePool plainMdadm steadyRunner twoArrays deleteMixed).unmounted =
        some ⟨"/zos/data/a", "/dev/md1"⟩ ∧
      (deletePool plainMdadm steadyRunner twoArrays deleteMixed).stopped = some arrayB ∧
      (deletePool plainMdadm steadyRunner twoArrays deleteMixed).zeroed =
        ["/dev/sdc", "/dev/sdd"] := by
  decide

end Zos.Hostd.StoragePool
