import Mathlib.Data.List.Infix
import Mathlib.Data.List.Sort
import Zos.Lib.Acl
import Zos.Lib.Js
import Zos.Lib.Path

/-!
# Access control lists of shares

`grants_for` of `apps/hostd/src/shares/acl.rs`, and `prepare` of
`packaging/scripts/zos-share-acl.mjs`, which takes a tree from the grants that were
committed last to the desired ones. An absolute path is the list of its names; the
paths of grants are canonical, so one that leads through a link counts as missing.
-/

namespace Zos.Hostd.ShareAcl

open Zos.Lib

abbrev Path := List String

def Path.text (path : Path) : String := if path = [] then "/" else joinSegments ("" :: path)

/-- `path.startsWith(outer + "/")`: nothing starts with the two slashes that this makes
of the root. -/
def Path.below (outer path : Path) : Bool :=
  outer ≠ [] && outer.isPrefixOf path && outer ≠ path

inductive Access where
  | write | read | traverse
  deriving DecidableEq, Repr

def Access.rank : Access → Nat
  | .write => 3
  | .read => 2
  | .traverse => 1

inductive Scope where
  | tree | parent
  deriving DecidableEq, Repr

structure Grant where
  path : Path
  principal : String
  access : Access
  scope : Scope
  deriving DecidableEq, Repr

def Grant.key (grant : Grant) : Path × String := (grant.path, grant.principal)

/-- Paths are ordered name by name, and names as their bytes are, which is the order of
their characters. -/
def Grant.before (grant other : Grant) : Prop :=
  grant.path < other.path ∨ grant.path = other.path ∧ grant.principal ≤ other.principal

instance : DecidableRel Grant.before := fun _ _ => inferInstanceAs (Decidable (_ ∨ _ ∧ _))

/-! ## The grants of shares -/

structure Protocol where
  enabled : Bool
  readOnly : Bool
  allowGuest : Bool
  deriving DecidableEq, Repr

/-- DLNA is always read-only; WebDAV, DLNA and NFS have no guests. -/
structure ResolvedShare where
  smb : Protocol
  ftp : Protocol
  webdav : Protocol
  dlna : Protocol
  nfs : Protocol
  absolutePath : Path
  rootPath : Path
  deriving DecidableEq, Repr

structure ShareSettings where
  enabled : Bool
  username : String
  deriving DecidableEq, Repr

def Protocol.access (protocol : Protocol) : Access :=
  if protocol.readOnly then .read else .write

/-- The identity of a protocol and that of its guests. -/
def Protocol.identities (protocol : Protocol) (account : String) (guest : Option String) :
    List (String × Access) :=
  if protocol.enabled then
    (account, protocol.access) ::
      (if protocol.allowGuest then guest.toList.map (·, protocol.access) else [])
  else []

def identities (settings : ShareSettings) (share : ResolvedShare) : List (String × Access) :=
  share.smb.identities settings.username (some "nobody") ++
  share.ftp.identities settings.username (some "ftp") ++
  share.webdav.identities "www-data" none ++
  (if share.dlna.enabled then [("minidlna", .read)] else []) ++
  share.nfs.identities "zos-nfs" none

/-- The parents of a path inside the root, the nearest first. -/
def parents (root path : Path) : List Path :=
  path.inits.dropLast.reverse.takeWhile (root.isPrefixOf ·)

def insert : List Grant → Grant → List Grant :=
  upsert Grant.key fun grant entry =>
    entry.access.rank < grant.access.rank || (grant.scope = .tree && entry.scope = .parent)

def shareGrants (settings : ShareSettings) (share : ResolvedShare) : List Grant :=
  (identities settings share).flatMap fun (principal, access) =>
    ⟨share.absolutePath, principal, access, .tree⟩ ::
      (parents share.rootPath share.absolutePath).map (⟨·, principal, .traverse, .parent⟩)

/-- The values of a map are in the order of their keys. -/
def grantsFor (settings : ShareSettings) (shares : List ResolvedShare) : List Grant :=
  if settings.enabled then
    ((shares.flatMap (shareGrants settings)).foldl insert []).insertionSort Grant.before
  else []

/-! ## The tree -/

/-- Only directories have a default list. -/
inductive Kind where
  | file
  | directory (default : Option Acl)
  deriving DecidableEq

structure Node where
  path : Path
  kind : Kind
  access : Acl
  deriving DecidableEq

def Node.isDirectory (node : Node) : Bool :=
  match node.kind with
  | .directory _ => true
  | .file => false

def Node.default (node : Node) : Option Acl :=
  match node.kind with
  | .directory acl => acl
  | .file => none

def Node.mapDefault (node : Node) (f : Option Acl → Option Acl) : Node :=
  match node.kind with
  | .directory acl => { node with kind := .directory (f acl) }
  | .file => node

theorem Node.mapDefault_path (node : Node) (f : Option Acl → Option Acl) :
    (node.mapDefault f).path = node.path := by
  unfold mapDefault
  split <;> rfl

/-- The files and directories, and apart from them the symbolic links that lead
somewhere, which have no list. -/
structure Tree where
  nodes : List Node
  links : List Path
  paths_nodup : (nodes.map (·.path)).Nodup
  names_ne : ∀ node ∈ nodes, "" ∉ node.path
  closed : ∀ node ∈ nodes, ∀ path, path <+: node.path → path ∈ nodes.map (·.path)

theorem paths_map {f : Node → Node} (hf : ∀ node, (f node).path = node.path) (nodes : List Node) :
    (nodes.map f).map (·.path) = nodes.map (·.path) := by
  simp [hf]

def Tree.map (tree : Tree) (f : Node → Node) (hf : ∀ node, (f node).path = node.path) : Tree where
  nodes := tree.nodes.map f
  links := tree.links
  paths_nodup := by
    rw [paths_map hf]
    exact tree.paths_nodup
  names_ne := by
    intro node hnode
    obtain ⟨old, hold, rfl⟩ := List.mem_map.mp hnode
    rw [hf]
    exact tree.names_ne old hold
  closed := by
    intro node hnode path hpath
    obtain ⟨old, hold, rfl⟩ := List.mem_map.mp hnode
    rw [paths_map hf]
    exact tree.closed old hold path (hf old ▸ hpath)

/-- The tree grant of a directory holds for all below it, a parent grant for its path. -/
def Grant.covers (grant : Grant) (path : Path) : Bool :=
  grant.path = path || (grant.scope = .tree && grant.path.isPrefixOf path)

/-- What the script compares texts for. -/
def Grant.includes (grant : Grant) (path : Path) : Bool :=
  grant.path = path || (grant.scope = .tree && grant.path.below path)

/-! ## Changing entries -/

/-- `rwX`, `rX` or `--x`: a capital `X` is for directories, and for files that someone
can execute. -/
def Access.perm (access : Access) (execute : Bool) : Perm :=
  match access with
  | .write => Lib.perm true true execute
  | .read => Lib.perm true false execute
  | .traverse => Lib.perm false false true

/-- `change(grant)` on one file or directory. -/
def Grant.addTo (grant : Grant) (node : Node) : Node :=
  if grant.covers node.path then
    let execute := node.isDirectory || node.access.hasExecute
    let access := node.access.modifyUser grant.principal (grant.access.perm execute)
    let node := { node with access }
    if grant.scope = .tree then
      node.mapDefault fun acl =>
        some ((acl.getD access.base).modifyUser grant.principal (grant.access.perm true))
    else node
  else node

/-- `change(grant, true)` on one file or directory. -/
def Grant.removeFrom (grant : Grant) (node : Node) : Node :=
  if grant.covers node.path then
    let node := { node with access := node.access.removeUser grant.principal }
    if grant.scope = .tree then node.mapDefault (Option.map (·.removeUser grant.principal))
    else node
  else node

theorem Grant.addTo_path (grant : Grant) (node : Node) : (grant.addTo node).path = node.path := by
  unfold addTo
  split
  · dsimp only
    split
    · exact Node.mapDefault_path _ _
    · rfl
  · rfl

theorem Grant.removeFrom_path (grant : Grant) (node : Node) :
    (grant.removeFrom node).path = node.path := by
  unfold removeFrom
  split
  · dsimp only
    split
    · exact Node.mapDefault_path _ _
    · rfl
  · rfl

def addGrants (tree : Tree) (grants : List Grant) : Tree :=
  grants.foldl (fun tree grant => tree.map grant.addTo grant.addTo_path) tree

def removeGrants (tree : Tree) (grants : List Grant) : Tree :=
  grants.foldl (fun tree grant => tree.map grant.removeFrom grant.removeFrom_path) tree

/-! ## The masks -/

/-- The bits that the grants for a path need and its mask does not have. -/
def missing (desired : List Grant) (path : Path) (execute : Bool) (acl : Acl) : Perm :=
  fun bit => desired.any (fun grant => grant.includes path && grant.access.perm execute bit) &&
    !acl.groupClass bit

def isManaged (previous desired : List Grant) (user : String) : Bool :=
  user = "zos" || (previous ++ desired).any (·.principal = user)

/-- The entries below the mask that the script does not look after. -/
def unmanaged (previous desired : List Grant) (acl : Acl) : List Perm :=
  (acl.users.filter (!isManaged previous desired ·.1)).map (·.2) ++
    acl.group :: acl.groups.map (·.2)

structure MaskUpdate where
  path : Path
  isDefault : Bool
  mask : Perm
  deriving DecidableEq

def checkMask (previous desired : List Grant) (path : Path) (isDefault execute : Bool) (acl : Acl) :
    Except String (List MaskUpdate) :=
  let missing := missing desired path execute acl
  if missing = ⊥ then .ok []
  else if (unmanaged previous desired acl).any (· ⊓ missing ≠ ⊥) then
    .error ("Existing ACL mask needs separate review: " ++ path.text)
  else .ok [⟨path, isDefault, acl.groupClass ⊔ missing⟩]

/-- `getfacl` quotes backslashes and line breaks, and there is no file of the quoted name. -/
def isQuoted (path : Path) : Bool :=
  path.text.toList.any fun c => c = '\\' || c = '\n' || c = '\r'

def check (previous desired : List Grant) (node : Node) : Except String (List MaskUpdate) :=
  if isQuoted node.path then .error ("ENOENT: no such file or directory, lstat " ++ node.path.text)
  else do
    let access ← checkMask previous desired node.path false
      (node.isDirectory || node.access.isExecutable) node.access
    match node.default with
    | some acl => do
        let default ← checkMask previous desired node.path true true acl
        return access ++ default
    | none => return access

/-- The nodes that `getfacl` prints for a path, all those below it for a tree. -/
def snapshot (tree : Tree) (grant : Grant) : List Node :=
  tree.nodes.filter (grant.covers ·.path)

def maskUpdates (tree : Tree) (previous desired : List Grant) (grant : Grant) :
    Except String (List MaskUpdate) := do
  let updates ← (snapshot tree grant).mapM (check previous desired)
  return updates.flatten

def MaskUpdate.apply (update : MaskUpdate) (node : Node) : Node :=
  if update.path = node.path then
    if update.isDefault then node.mapDefault (Option.map (·.modifyMask update.mask))
    else { node with access := node.access.modifyMask update.mask }
  else node

theorem MaskUpdate.apply_path (update : MaskUpdate) (node : Node) :
    (update.apply node).path = node.path := by
  unfold apply
  split
  · split
    · exact Node.mapDefault_path _ _
    · rfl
  · rfl

def applyUpdates (tree : Tree) (updates : List MaskUpdate) : Tree :=
  updates.foldl (fun tree update => tree.map update.apply update.apply_path) tree

/-! ## Preparing a change -/

def isPrincipal (name : String) : Bool :=
  match name.toList with
  | [] => false
  | first :: rest => (first = '_' || first.isLower) &&
      rest.all fun c => c = '_' || c = '-' || c.isLower || c.isDigit

def validate (grants : List Grant) : Except String Unit :=
  if grants.all (isPrincipal ·.principal) then .ok () else .error "Invalid ACL grant"

def available (tree : Tree) (desired : Bool) (grant : Grant) : Except String Bool :=
  if grant.path ∈ tree.links then .error ("Shared path is a symlink: " ++ grant.path.text)
  else if grant.path ∈ tree.nodes.map (·.path) then .ok true
  else if desired then .error ("Shared path is missing: " ++ grant.path.text)
  else .ok false

/-- The grants whose path is still there. -/
def present (tree : Tree) (grants : List Grant) : List Grant :=
  grants.filter (·.path ∈ tree.nodes.map (·.path))

def existingPrevious (tree : Tree) : List Grant → Except String (List Grant)
  | [] => .ok []
  | grant :: rest => do
      let keep ← available tree false grant
      let rest ← existingPrevious tree rest
      return if keep then grant :: rest else rest

def checkMounts (mountpoints : List Path) (grant : Grant) : Except String Unit :=
  if grant.scope = .tree ∧ mountpoints.any (grant.path.below ·) then
    .error ("Nested mount in shared path: " ++ grant.path.text)
  else .ok ()

/-- One grant for each path, a tree grant where there is one. -/
def affected (grants : List Grant) : List Grant :=
  grants.foldl (upsert Grant.path fun grant _ => grant.scope = .tree) []

def hasExistingEntry (previous : List Grant) (principal : String) (nodes : List Node) : Bool :=
  nodes.any fun node =>
    ((node.access.user principal).isSome || (node.default.any (·.user principal |>.isSome))) &&
    !previous.any fun grant => grant.principal = principal && grant.includes node.path

/-- Whether a grant is in the list as it is. -/
def isKept (grants : List Grant) (grant : Grant) : Bool :=
  match grants.reverse.find? (·.key = grant.key) with
  | some counterpart => counterpart.access = grant.access && counterpart.scope = grant.scope
  | none => false

def hasChanged (previous existing desired : List Grant) : Bool :=
  previous.length ≠ desired.length || previous.any (!isKept desired ·) ||
    desired.any (!isKept existing ·)

/-- A grant that is new for its path and principal finds no entry that the script has not
made. -/
def checkExisting (tree : Tree) (existing affected : List Grant) (grant : Grant) :
    Except String Unit :=
  if !existing.any (·.key = grant.key) &&
      (affected.filter (·.path = grant.path)).any fun entry =>
        hasExistingEntry existing grant.principal (snapshot tree entry) then
    .error ("ACL for " ++ grant.principal ++
      " already exists; refusing to replace administrator permissions")
  else .ok ()

def Grant.length (grant : Grant) : Nat := utf16Length grant.path.text

/-- The tree after `prepare`. A failure restores the lists from the snapshots. -/
def prepare (tree : Tree) (mountpoints : List Path) (previous desired : List Grant) :
    Except String Tree := do
  validate desired
  validate previous
  let existing ← existingPrevious tree previous
  desired.forM fun grant => (available tree true grant).map fun _ => ()
  let affected := affected (existing ++ desired)
  affected.forM (checkMounts mountpoints)
  let updates ← affected.mapM (maskUpdates tree existing desired)
  desired.forM (checkExisting tree existing affected)
  let masked := applyUpdates tree updates.flatten
  let removed :=
    if hasChanged previous existing desired then
      removeGrants masked (existing.insertionSort fun a b => b.length ≤ a.length)
    else masked
  return addGrants removed (desired.insertionSort fun a b => a.length ≤ b.length)

/-- A tree and the grants that were committed for it last. -/
structure Store where
  tree : Tree
  committed : List Grant

/-- `prepare` and `commit`. -/
def Store.update (store : Store) (mountpoints : List Path) (desired : List Grant) :
    Except String Store := do
  let tree ← prepare store.tree mountpoints store.committed desired
  return ⟨tree, desired⟩

end Zos.Hostd.ShareAcl
