import Mathlib.Data.Fintype.Pi
import Mathlib.Order.BooleanAlgebra.Basic
import Zos.Lib.Keyed

/-!
# POSIX access control lists

An access control list has an entry for the owner, the owning group and the others,
entries for named users and groups, and a mask that bounds what the owning group and
every named entry can do. A list with a named entry has a mask. `modifyUser`,
`removeUser` and `modifyMask` are `setfacl -n -m u:…`, `-n -x u:…` and `-n -m m::…`,
where `-n` leaves an existing mask as it is.
-/

namespace Zos.Lib

inductive Bit where
  | read | write | execute
  deriving DecidableEq, Repr

instance : Fintype Bit where
  elems := {.read, .write, .execute}
  complete bit := by cases bit <;> simp

/-- The bits that are granted, ordered by inclusion. -/
abbrev Perm := Bit → Bool

def perm (read write execute : Bool) : Perm
  | .read => read
  | .write => write
  | .execute => execute

structure Acl where
  owner : Perm
  group : Perm
  other : Perm
  users : List (String × Perm)
  groups : List (String × Perm)
  mask : Option Perm
  mask_of_named : mask = none → users = [] ∧ groups = []
  deriving DecidableEq

/-- Those the mask holds for. -/
inductive Subject where
  | user (name : String)
  | group (name : String)
  | owningGroup
  deriving DecidableEq, Repr

namespace Acl

def user (acl : Acl) (name : String) : Option Perm := acl.users.lookup name

def entry (acl : Acl) : Subject → Option Perm
  | .user name => acl.user name
  | .group name => acl.groups.lookup name
  | .owningGroup => some acl.group

def effective (acl : Acl) (subject : Subject) : Perm :=
  match acl.entry subject with
  | none => ⊥
  | some perm => perm ⊓ acl.mask.getD ⊤

/-- The mask, or what stands for it where there is none: the group class of the mode. -/
def groupClass (acl : Acl) : Perm := acl.mask.getD acl.group

/-- Whether the mode has an execute bit. -/
def isExecutable (acl : Acl) : Bool :=
  acl.owner .execute || acl.groupClass .execute || acl.other .execute

/-- Whether any entry has the execute bit, the mask among them. -/
def hasExecute (acl : Acl) : Bool :=
  acl.isExecutable || acl.group .execute || (acl.users ++ acl.groups).any (·.2 .execute)

/-- `setfacl -n -m u:name:perm`. A mask that is missing is made from the group's entry. -/
def modifyUser (acl : Acl) (name : String) (perm : Perm) : Acl where
  owner := acl.owner
  group := acl.group
  other := acl.other
  users := (name, perm) :: acl.users.filter (·.1 ≠ name)
  groups := acl.groups
  mask := some acl.groupClass
  mask_of_named h := absurd h (Option.some_ne_none _)

/-- `setfacl -n -x u:name`. -/
def removeUser (acl : Acl) (name : String) : Acl where
  owner := acl.owner
  group := acl.group
  other := acl.other
  users := acl.users.filter (·.1 ≠ name)
  groups := acl.groups
  mask := acl.mask
  mask_of_named h := by
    obtain ⟨husers, hgroups⟩ := acl.mask_of_named h
    exact ⟨by rw [husers]; rfl, hgroups⟩

/-- `setfacl -n -m m::mask`. -/
def modifyMask (acl : Acl) (mask : Perm) : Acl where
  owner := acl.owner
  group := acl.group
  other := acl.other
  users := acl.users
  groups := acl.groups
  mask := some mask
  mask_of_named h := absurd h (Option.some_ne_none _)

/-- A mode. -/
def ofMode (owner group other : Perm) : Acl :=
  ⟨owner, group, other, [], [], none, fun _ => ⟨rfl, rfl⟩⟩

/-- The default list that `setfacl -m d:…` starts from where a directory has none. -/
def base (acl : Acl) : Acl where
  owner := acl.owner
  group := acl.group
  other := acl.other
  users := []
  groups := []
  mask := none
  mask_of_named _ := ⟨rfl, rfl⟩

/-! ## Entries -/

variable {acl : Acl} {name other : String} {p : Perm} {subject : Subject}

@[simp] theorem user_modifyUser :
    (acl.modifyUser name p).user other = if other = name then some p else acl.user other :=
  lookup_replace acl.users name other p

@[simp] theorem user_removeUser :
    (acl.removeUser name).user other = if other = name then none else acl.user other :=
  lookup_filter acl.users name other

theorem entry_modifyUser (h : subject ≠ .user name) :
    (acl.modifyUser name p).entry subject = acl.entry subject := by
  cases subject with
  | user other =>
      have hne : other ≠ name := fun e => h (congrArg Subject.user e)
      simp [entry, hne]
  | group | owningGroup => rfl

@[simp] theorem entry_modifyMask : (acl.modifyMask p).entry subject = acl.entry subject := by
  cases subject <;> rfl

theorem entry_removeUser :
    (acl.removeUser name).entry subject =
      if subject = .user name then none else acl.entry subject := by
  cases subject with
  | user other => simp [entry]
  | group | owningGroup => rfl

@[simp] theorem groupClass_modifyUser : (acl.modifyUser name p).groupClass = acl.groupClass := rfl

@[simp] theorem groupClass_modifyMask : (acl.modifyMask p).groupClass = p := rfl

/-! ## What an entry gives -/

/-- A list without a mask has no named entry, so the group class bounds every entry. -/
theorem effective_eq (acl : Acl) (subject : Subject) :
    acl.effective subject = ((acl.entry subject).getD ⊥) ⊓ acl.groupClass := by
  rw [effective, groupClass]
  cases hmask : acl.mask with
  | some mask => cases acl.entry subject <;> simp
  | none =>
      obtain ⟨husers, hgroups⟩ := acl.mask_of_named hmask
      cases subject <;> simp [entry, user, husers, hgroups]

theorem isExecutable_mono {before after : Acl} (hbase : after.base = before.base)
    (hclass : before.groupClass ≤ after.groupClass) (h : before.isExecutable = true) :
    after.isExecutable = true := by
  have howner : after.base.owner = before.base.owner := by rw [hbase]
  have hother : after.base.other = before.base.other := by rw [hbase]
  replace howner : after.owner = before.owner := howner
  replace hother : after.other = before.other := hother
  simp only [isExecutable, Bool.or_eq_true, howner, hother] at h ⊢
  exact h.imp_left (Or.imp_right (hclass .execute))

theorem hasExecute_of_isExecutable (h : acl.isExecutable = true) : acl.hasExecute = true := by
  simp [hasExecute, h]

end Acl

end Zos.Lib
