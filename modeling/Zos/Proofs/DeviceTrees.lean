import Zos.Hostd.Devices
import Zos.Lib.Fallible

/-!
# Accepted disks and what is below them

The check looks at a disk and at the rows right below it. Nothing is said about rows further
down, such as a volume on a partition whose own signature `lsblk` does not know: an accepted
disk is free exactly when these are.
-/

namespace Zos.Hostd.Devices

open Zos.Lib

/-! ## Free disks -/

/-- The rows of a subtree. -/
inductive Within (node : Node) : Node → Prop where
  | here : Within node node
  | under {row child : Node} : child ∈ row.children → Within node child → Within node row

def InUse (row : Node) : Prop := row.fstype.isSome ∨ row.hasMount

def Holders.Empty (holders : Holders) : Prop := holders = .missing ∨ holders = .entries []

/-- Nothing of the disk is in use, a superblock apart that is left of an array. -/
structure Free (holders : Holders) (row : Node) : Prop where
  unmounted : ¬ row.hasMount
  unsigned : row.fstype = none ∨ row.fstype = some raidMember ∧ holders.Empty
  below : ∀ child ∈ row.children, ∀ node, Within node child → ¬ InUse node

/-! ## What the check has seen -/

theorem assertNodeUnused_ok_iff {row : Node} {device : String} {allowStaleRaid : Bool} :
    assertNodeUnused row device allowStaleRaid = .ok () ↔
      ¬ row.hasMount ∧
        (row.fstype = none ∨ allowStaleRaid ∧ row.fstype = some raidMember) := by
  unfold assertNodeUnused
  cases hfstype : row.fstype with
  | none => by_cases hmount : row.hasMount <;> simp [hmount]
  | some fstype =>
      by_cases hmount : row.hasMount
      · simp [hmount]
      · by_cases hraid : allowStaleRaid = true ∧ fstype = raidMember
        · simp [hmount, hraid]
        · simp [hmount, hraid]

theorem assertNodeUnused_strict_iff {row : Node} {device : String} :
    assertNodeUnused row device false = .ok () ↔ ¬ InUse row := by
  rw [assertNodeUnused_ok_iff, InUse, not_or, Option.not_isSome_iff_eq_none]
  simp [and_comm]

theorem assertNoHolders_ok_iff {holders : Holders} {device : String} :
    assertNoHolders holders device = .ok () ↔ holders.Empty := by
  unfold Holders.Empty
  cases holders with
  | missing => simp [assertNoHolders]
  | unreadable error => simp [assertNoHolders]
  | entries names =>
      cases names with
      | nil => simp [assertNoHolders]
      | cons name names => simp [assertNoHolders]

/-- An accepted disk, and the two levels that were looked at. -/
theorem assertDeviceAvailable_ok {rows : List Node} {holders : String → Holders}
    {device : String} {stale : Bool}
    (h : assertDeviceAvailable rows holders device = .ok stale) :
    ∃ row, byPath rows device = some row ∧ row.type = some "disk" ∧ ¬ row.hasMount ∧
      stale = decide (row.fstype = some raidMember) ∧
      (row.fstype = none ∨ row.fstype = some raidMember ∧ (holders device).Empty) ∧
      ∀ child ∈ row.children, ¬ InUse child := by
  unfold assertDeviceAvailable at h
  cases hrow : byPath rows device with
  | none =>
      rw [hrow] at h
      cases h
  | some row =>
      rw [hrow] at h
      dsimp only at h
      split at h
      · cases h
      · rename_i htype
        obtain ⟨⟨⟩, hroot, h⟩ := bind_ok_iff.mp h
        obtain ⟨⟨⟩, hholders, h⟩ := bind_ok_iff.mp h
        obtain ⟨⟨⟩, hchildren, h⟩ := bind_ok_iff.mp h
        cases h
        obtain ⟨hmount, hfstype⟩ := assertNodeUnused_ok_iff.mp hroot
        refine ⟨row, rfl, not_not.mp htype, hmount, rfl, ?_, fun child hchild => ?_⟩
        · refine hfstype.imp_right fun ⟨hstale, hraid⟩ => ⟨hraid, ?_⟩
          rw [if_pos hstale] at hholders
          exact assertNoHolders_ok_iff.mp hholders
        · exact assertNodeUnused_strict_iff.mp (ok_of_forM hchildren hchild)

/-! ## Accepted lists -/

structure Acceptance where
  rows : List Node
  holders : String → Holders
  devices : List String
  stale : List String
  accepted : assertDevicesAvailable (some rows) holders devices = .ok stale

theorem accepted_free_iff (acceptance : Acceptance) :
    (∀ device ∈ acceptance.devices, ∃ row, byPath acceptance.rows device = some row ∧
      Free (acceptance.holders device) row) ↔
    ∀ device ∈ acceptance.devices, ∀ row, byPath acceptance.rows device = some row →
      ∀ child ∈ row.children, ∀ inner ∈ child.children, ∀ node, Within node inner →
        ¬ InUse node := by
  constructor
  · intro hfree device hdevice row hrow child hchild inner hinner node hnode
    obtain ⟨row', hrow', hfree⟩ := hfree device hdevice
    obtain rfl : row = row' := Option.some.inj (hrow.symm.trans hrow')
    exact hfree.below child hchild node (.under hinner hnode)
  · intro hdeep device hdevice
    obtain ⟨before, after, hpush⟩ := ok_of_foldlM acceptance.accepted hdevice
    obtain ⟨isStale, hchecked, -⟩ := bind_ok_iff.mp hpush
    obtain ⟨row, hrow, -, hmount, -, hfstype, hchildren⟩ := assertDeviceAvailable_ok hchecked
    refine ⟨row, hrow, hmount, hfstype, fun child hchild node hnode => ?_⟩
    cases hnode with
    | here => exact hchildren _ hchild
    | under hinner hnode => exact hdeep device hdevice row hrow child hchild _ hinner node hnode

/-! ## A volume on a partition without a signature -/

def mountedVolume : Node :=
  .mk (some "/dev/mapper/data") (some "crypt") (some "ext4") [some "/srv/data"] []

def diskWithVolume : Node :=
  .mk (some "/dev/sda") (some "disk") none [none]
    [.mk (some "/dev/sda1") (some "part") none [none] [mountedVolume]]

theorem accepted_with_mounted_volume :
    ∃ acceptance : Acceptance, ∃ device ∈ acceptance.devices,
      ¬ ∃ row, byPath acceptance.rows device = some row ∧
        Free (acceptance.holders device) row := by
  refine ⟨⟨[diskWithVolume], fun _ => .entries [], ["/dev/sda"], [], rfl⟩, "/dev/sda",
    List.mem_singleton_self _, ?_⟩
  rintro ⟨row, hrow, hfree⟩
  obtain rfl : diskWithVolume = row := Option.some.inj hrow
  have hwithin : Within mountedVolume
      (.mk (some "/dev/sda1") (some "part") none [none] [mountedVolume]) :=
    .under (List.mem_singleton_self _) .here
  exact hfree.below _ (List.mem_singleton_self _) mountedVolume hwithin (.inl rfl)

end Zos.Hostd.Devices
