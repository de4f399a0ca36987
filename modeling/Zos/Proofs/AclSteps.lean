import Zos.Hostd.ShareAcl
import Zos.Lib.Fallible
import Zos.Lib.Rows

/-!
# What preparing a change does to one list

Every command of the script changes the lists of the nodes one by one, so the tree it
leaves is that of one function on nodes: mask updates first, then removals, then
additions (`Prepared`). The access list and the default list of a node go through the
same steps, and `Node.list` speaks of both. Removals and additions leave every entry
but their own alone, and never change the mask.
-/

namespace Zos.Hostd.ShareAcl

open Zos.Lib

/-- The default list, or the access list. -/
def Node.list (node : Node) (isDefault : Bool) : Option Acl :=
  if isDefault then node.default else some node.access

theorem Node.list_access (node : Node) : node.list false = some node.access := rfl

/-- Whether a grant has an entry in that list. -/
def Grant.touches (grant : Grant) (isDefault : Bool) (node : Node) : Bool :=
  grant.covers node.path && (!isDefault || (grant.scope = .tree && node.isDirectory))

/-! ## One command -/

theorem Node.default_of_file {node : Node} (h : node.isDirectory = false) :
    node.default = none := by
  obtain ⟨path, kind, access⟩ := node
  cases kind with
  | file => rfl
  | directory => cases h

section MapDefault

variable (node : Node) (f : Option Acl → Option Acl)

@[simp] theorem Node.default_mapDefault :
    (node.mapDefault f).default = if node.isDirectory then f node.default else node.default := by
  obtain ⟨path, kind, access⟩ := node
  cases kind <;> rfl

@[simp] theorem Node.access_mapDefault : (node.mapDefault f).access = node.access := by
  obtain ⟨path, kind, access⟩ := node
  cases kind <;> rfl

@[simp] theorem Node.isDirectory_mapDefault :
    (node.mapDefault f).isDirectory = node.isDirectory := by
  obtain ⟨path, kind, access⟩ := node
  cases kind <;> rfl

end MapDefault

section OneCommand

variable (grant : Grant) (update : MaskUpdate) (node : Node) (isDefault : Bool)

theorem Grant.list_removeFrom :
    (grant.removeFrom node).list isDefault =
      if grant.touches isDefault node then
        (node.list isDefault).map (·.removeUser grant.principal)
      else node.list isDefault := by
  unfold removeFrom touches Node.list
  by_cases hcovers : grant.covers node.path = true
  · by_cases htree : grant.scope = .tree <;> cases isDefault <;> simp [hcovers, htree] <;> rfl
  · simp [hcovers]

theorem Grant.list_addTo :
    (grant.addTo node).list isDefault =
      if grant.touches isDefault node then
        some (((node.list isDefault).getD node.access.base).modifyUser grant.principal
          (grant.access.perm (isDefault || node.isDirectory || node.access.hasExecute)))
      else node.list isDefault := by
  unfold addTo touches Node.list
  by_cases hcovers : grant.covers node.path = true
  · by_cases htree : grant.scope = .tree <;> cases isDefault <;> simp [hcovers, htree] <;> rfl
  · simp [hcovers]

theorem MaskUpdate.list_apply :
    (update.apply node).list isDefault =
      if update.path = node.path ∧ update.isDefault = isDefault then
        (node.list isDefault).map (·.modifyMask update.mask)
      else node.list isDefault := by
  unfold apply Node.list
  by_cases hpath : update.path = node.path
  · cases hupdate : update.isDefault <;> cases isDefault <;> simp [hpath]
    · rfl
    · intro hfile
      rw [Node.default_of_file hfile, Option.map_none]
  · simp [hpath]

theorem Grant.isDirectory_removeFrom :
    (grant.removeFrom node).isDirectory = node.isDirectory := by
  unfold removeFrom
  split
  · dsimp only
    split
    · exact Node.isDirectory_mapDefault _ _
    · rfl
  · rfl

theorem Grant.isDirectory_addTo : (grant.addTo node).isDirectory = node.isDirectory := by
  unfold addTo
  split
  · dsimp only
    split
    · exact Node.isDirectory_mapDefault _ _
    · rfl
  · rfl

theorem MaskUpdate.isDirectory_apply : (update.apply node).isDirectory = node.isDirectory := by
  unfold apply
  split
  · split
    · exact Node.isDirectory_mapDefault _ _
    · rfl
  · rfl

end OneCommand

/-! ## Many commands -/

def removeAll (grants : List Grant) (node : Node) : Node :=
  grants.foldl (fun node grant => grant.removeFrom node) node

def addAll (grants : List Grant) (node : Node) : Node :=
  grants.foldl (fun node grant => grant.addTo node) node

def remask (updates : List MaskUpdate) (node : Node) : Node :=
  updates.foldl (fun node update => update.apply node) node

theorem nodes_foldl_map {α : Type} {f : α → Node → Node}
    (hf : ∀ a node, (f a node).path = node.path) (commands : List α) (tree : Tree) :
    (commands.foldl (fun tree a => tree.map (f a) (hf a)) tree).nodes =
      tree.nodes.map fun node => commands.foldl (fun node a => f a node) node := by
  induction commands generalizing tree with
  | nil => simp
  | cons a rest ih =>
      rw [List.foldl_cons, ih, Tree.map, List.map_map]
      rfl

variable {grant : Grant} {grants : List Grant} {updates : List MaskUpdate} {node : Node}
  {isDefault : Bool} {subject : Subject} {acl : Acl}

/-- What no command changes: where a node is, and whether it is a directory. -/
def SameNode (before after : Node) : Prop :=
  after.path = before.path ∧ after.isDirectory = before.isDirectory

theorem SameNode.foldl {α : Type} {f : Node → α → Node}
    (hf : ∀ node a, SameNode node (f node a)) (commands : List α) (node : Node) :
    SameNode node (commands.foldl f node) := by
  induction commands generalizing node with
  | nil => exact ⟨rfl, rfl⟩
  | cons a rest ih =>
      obtain ⟨hpath, hdirectory⟩ := hf node a
      obtain ⟨hpath', hdirectory'⟩ := ih (f node a)
      exact ⟨hpath'.trans hpath, hdirectory'.trans hdirectory⟩

theorem SameNode.touches {before after : Node} (h : SameNode before after) :
    grant.touches isDefault after = grant.touches isDefault before := by
  rw [Grant.touches, Grant.touches, h.1, h.2]

theorem sameNode_addTo (grant : Grant) (node : Node) : SameNode node (grant.addTo node) :=
  ⟨grant.addTo_path node, grant.isDirectory_addTo node⟩

theorem sameNode_removeFrom (grant : Grant) (node : Node) : SameNode node (grant.removeFrom node) :=
  ⟨grant.removeFrom_path node, grant.isDirectory_removeFrom node⟩

theorem sameNode_apply (update : MaskUpdate) (node : Node) : SameNode node (update.apply node) :=
  ⟨update.apply_path node, update.isDirectory_apply node⟩

theorem sameNode_remask : SameNode node (remask updates node) :=
  .foldl (fun node update => sameNode_apply update node) updates node

theorem sameNode_removeAll : SameNode node (removeAll grants node) :=
  .foldl (fun node grant => sameNode_removeFrom grant node) grants node

theorem sameNode_addAll : SameNode node (addAll grants node) :=
  .foldl (fun node grant => sameNode_addTo grant node) grants node

theorem ite_none_or {α : Type} {p q : Prop} [Decidable p] [Decidable q] [Decidable (q ∨ p)]
    {x : Option α} :
    (if p then none else if q then none else x) = if q ∨ p then none else x := by
  by_cases hp : p <;> by_cases hq : q <;> simp [hp, hq]

/-- Removals take the entries of their own users away, and leave the mask. -/
theorem list_removeAll (grants : List Grant) (subject : Subject)
    (h : node.list isDefault = some acl) :
    ∃ after, (removeAll grants node).list isDefault = some after ∧
      after.groupClass = acl.groupClass ∧ after.base = acl.base ∧
      after.entry subject =
        if ∃ grant ∈ grants, grant.touches isDefault node = true ∧ subject = .user grant.principal
        then none else acl.entry subject := by
  induction grants generalizing node acl with
  | nil => exact ⟨acl, h, rfl, rfl, by simp⟩
  | cons grant rest ih =>
      have hsame := sameNode_removeFrom grant node
      by_cases htouches : grant.touches isDefault node = true
      · have hlist : (grant.removeFrom node).list isDefault =
            some (acl.removeUser grant.principal) := by
          rw [Grant.list_removeFrom, if_pos htouches, h, Option.map_some]
        obtain ⟨after, hafter, hclass, hbase, hentry⟩ := ih hlist
        refine ⟨after, hafter, hclass, hbase, ?_⟩
        simp only [hentry, hsame.touches, Acl.entry_removeUser, List.mem_cons,
          exists_eq_or_imp, htouches, true_and]
        exact ite_none_or
      · have hlist : (grant.removeFrom node).list isDefault = some acl := by
          rw [Grant.list_removeFrom, if_neg htouches, h]
        obtain ⟨after, hafter, hclass, hbase, hentry⟩ := ih hlist
        refine ⟨after, hafter, hclass, hbase, ?_⟩
        simp [hentry, hsame.touches, htouches]

theorem list_removeAll_none (h : node.list isDefault = none) :
    (removeAll grants node).list isDefault = none := by
  induction grants generalizing node with
  | nil => exact h
  | cons grant rest ih =>
      refine ih ?_
      rw [Grant.list_removeFrom, h]
      simp

/-- The list that an addition starts from. -/
def Node.start (node : Node) (isDefault : Bool) : Acl :=
  (node.list isDefault).getD node.access.base

theorem start_addTo (h : grant.touches isDefault node = false) :
    (grant.addTo node).start isDefault = node.start isDefault := by
  have hbase : (grant.addTo node).access.base = node.access.base := by
    have haccess := grant.list_addTo node false
    simp only [Node.list, Bool.false_eq_true, if_false] at haccess
    split at haccess
    · rw [Option.some.inj haccess]
      rfl
    · rw [Option.some.inj haccess]
  rw [Node.start, Node.start, hbase, Grant.list_addTo, if_neg (by simp [h])]

theorem list_addAll_of_untouched (h : ∀ grant ∈ grants, grant.touches isDefault node = false) :
    (addAll grants node).list isDefault = node.list isDefault := by
  induction grants generalizing node with
  | nil => rfl
  | cons grant rest ih =>
      have htouches := h grant List.mem_cons_self
      have hrest : ∀ g ∈ rest, g.touches isDefault (grant.addTo node) = false := fun g hg => by
        rw [(sameNode_addTo grant node).touches]
        exact h g (List.mem_cons_of_mem _ hg)
      rw [addAll, List.foldl_cons, ← addAll, ih hrest, Grant.list_addTo,
        if_neg (by simp [htouches])]

/-- Additions leave the mask and all entries but those of their own users. -/
theorem list_addAll
    (hother : ∀ grant ∈ grants, grant.touches isDefault node = true →
      subject ≠ .user grant.principal)
    (htouched : ∃ grant ∈ grants, grant.touches isDefault node = true) :
    ∃ after, (addAll grants node).list isDefault = some after ∧
      after.groupClass = (node.start isDefault).groupClass ∧
      after.entry subject = (node.start isDefault).entry subject := by
  induction grants generalizing node with
  | nil => simp at htouched
  | cons grant rest ih =>
      have hsame := sameNode_addTo grant node
      have hrest : ∀ g ∈ rest, g.touches isDefault (grant.addTo node) = true →
          subject ≠ .user g.principal := fun g hg ht =>
        hother g (List.mem_cons_of_mem _ hg) (hsame.touches ▸ ht)
      -- what the first command leaves is where the others start
      have hstart : ((grant.addTo node).start isDefault).groupClass =
            (node.start isDefault).groupClass ∧
          ((grant.addTo node).start isDefault).entry subject =
            (node.start isDefault).entry subject := by
        by_cases ht : grant.touches isDefault node = true
        · have hlist := grant.list_addTo node isDefault
          rw [if_pos ht] at hlist
          rw [Node.start, hlist, Option.getD_some]
          exact ⟨Acl.groupClass_modifyUser,
            Acl.entry_modifyUser (hother grant List.mem_cons_self ht)⟩
        · rw [start_addTo (by simpa using ht)]
          exact ⟨rfl, rfl⟩
      by_cases hmore : ∃ g ∈ rest, g.touches isDefault node = true
      · obtain ⟨g, hg, ht⟩ := hmore
        obtain ⟨after, hafter, hclass, hentry⟩ := ih hrest ⟨g, hg, hsame.touches.trans ht⟩
        exact ⟨after, hafter, hclass.trans hstart.1, hentry.trans hstart.2⟩
      · have huntouched : ∀ g ∈ rest, g.touches isDefault (grant.addTo node) = false := by
          intro g hg
          rw [hsame.touches]
          simpa using fun ht => hmore ⟨g, hg, ht⟩
        have hgrant : grant.touches isDefault node = true := by
          obtain ⟨g, hg, ht⟩ := htouched
          obtain rfl | hg := List.mem_cons.mp hg
          · exact ht
          · exact absurd ⟨g, hg, ht⟩ hmore
        have hlist := grant.list_addTo node isDefault
        rw [if_pos hgrant] at hlist
        refine ⟨_, (list_addAll_of_untouched huntouched).trans hlist, ?_⟩
        rw [Node.start, hlist] at hstart
        exact hstart

/-! ## Masks -/

/-- All updates of one list set the same mask. -/
theorem list_remask {mask : Perm} (h : node.list isDefault = some acl)
    (hmask : ∀ update ∈ updates, update.path = node.path → update.isDefault = isDefault →
      update.mask = mask) :
    ∃ after, (remask updates node).list isDefault = some after ∧ after.base = acl.base ∧
      (∀ subject, after.entry subject = acl.entry subject) ∧
      after.groupClass =
        if ∃ update ∈ updates, update.path = node.path ∧ update.isDefault = isDefault then mask
        else acl.groupClass := by
  induction updates generalizing node acl with
  | nil => exact ⟨acl, h, rfl, fun _ => rfl, by simp⟩
  | cons update rest ih =>
      obtain ⟨hpath, -⟩ := sameNode_apply update node
      have hrest : ∀ u ∈ rest, u.path = (update.apply node).path → u.isDefault = isDefault →
          u.mask = mask := fun u hu => hpath ▸ hmask u (List.mem_cons_of_mem _ hu)
      by_cases hown : update.path = node.path ∧ update.isDefault = isDefault
      · have hlist : (update.apply node).list isDefault = some (acl.modifyMask mask) := by
          rw [MaskUpdate.list_apply, if_pos hown, h, Option.map_some,
            hmask update List.mem_cons_self hown.1 hown.2]
        obtain ⟨after, hafter, hbase, hentry, hclass⟩ := ih hlist hrest
        refine ⟨after, hafter, hbase, fun subject => (hentry subject).trans Acl.entry_modifyMask,
          ?_⟩
        rw [hclass, Acl.groupClass_modifyMask, ite_self, if_pos ⟨update, List.mem_cons_self, hown⟩]
      · have hlist : (update.apply node).list isDefault = some acl := by
          rw [MaskUpdate.list_apply, if_neg hown, h]
        obtain ⟨after, hafter, hbase, hentry, hclass⟩ := ih hlist hrest
        refine ⟨after, hafter, hbase, hentry, ?_⟩
        simp only [hclass, hpath, List.mem_cons, exists_eq_or_imp, hown, false_or]

theorem list_remask_none (h : node.list isDefault = none) :
    (remask updates node).list isDefault = none := by
  induction updates generalizing node with
  | nil => exact h
  | cons update rest ih =>
      refine ih ?_
      rw [MaskUpdate.list_apply, h]
      simp

/-- The bits that the mask of a list gains. -/
def Node.missing (desired : List Grant) (node : Node) (isDefault : Bool) (acl : Acl) : Perm :=
  ShareAcl.missing desired node.path
    (isDefault || node.isDirectory || node.access.isExecutable) acl

/-- What it takes to give a mask its missing bits: no entry that the script does not look
after has one of them. -/
def Node.Guarded (existing desired : List Grant) (node : Node) : Prop :=
  ∀ isDefault acl, node.list isDefault = some acl →
    ∀ entry ∈ unmanaged existing desired acl, entry ⊓ node.missing desired isDefault acl = ⊥

def Node.updateFor (desired : List Grant) (node : Node) (isDefault : Bool) (acl : Acl) :
    List MaskUpdate :=
  if node.missing desired isDefault acl = ⊥ then []
  else [⟨node.path, isDefault, acl.groupClass ⊔ node.missing desired isDefault acl⟩]

variable {existing desired : List Grant}

theorem checkMask_ok {path : Path} {execute : Bool} {result : List MaskUpdate}
    (h : checkMask existing desired path isDefault execute acl = .ok result) :
    (∀ entry ∈ unmanaged existing desired acl, entry ⊓ missing desired path execute acl = ⊥) ∧
      result = if missing desired path execute acl = ⊥ then []
        else [⟨path, isDefault, acl.groupClass ⊔ missing desired path execute acl⟩] := by
  unfold checkMask at h
  dsimp only at h
  split at h
  · next hmissing =>
      cases h
      rw [if_pos hmissing, hmissing]
      exact ⟨fun entry _ => inf_bot_eq entry, rfl⟩
  · next hmissing =>
      split at h
      · cases h
      · next hunmanaged =>
          cases h
          rw [if_neg hmissing]
          exact ⟨by simpa using hunmanaged, rfl⟩

theorem mem_updateFor {update : MaskUpdate} :
    update ∈ node.updateFor desired isDefault acl ↔ node.missing desired isDefault acl ≠ ⊥ ∧
      update = ⟨node.path, isDefault, acl.groupClass ⊔ node.missing desired isDefault acl⟩ := by
  unfold Node.updateFor
  split <;> simp_all

theorem isDefault_of_mem_updateFor {update : MaskUpdate}
    (h : update ∈ node.updateFor desired isDefault acl) : update.isDefault = isDefault := by
  rw [(mem_updateFor.mp h).2]

theorem check_ok {result : List MaskUpdate} (h : check existing desired node = .ok result) :
    node.Guarded existing desired ∧
      ∀ update, update ∈ result ↔ ∃ acl, node.list update.isDefault = some acl ∧
        update ∈ node.updateFor desired update.isDefault acl := by
  unfold check at h
  split at h
  · cases h
  obtain ⟨access, haccess, h⟩ := bind_ok_iff.mp h
  obtain ⟨hguard, haccess⟩ := checkMask_ok haccess
  replace haccess : access = node.updateFor desired false node.access := haccess
  have hmem : ∀ update ∈ access, ∃ acl, node.list update.isDefault = some acl ∧
      update ∈ node.updateFor desired update.isDefault acl := by
    intro update hupdate
    have hfield := isDefault_of_mem_updateFor (haccess ▸ hupdate)
    exact ⟨node.access, by rw [hfield]; rfl, by rw [hfield, ← haccess]; exact hupdate⟩
  split at h
  · next acl hdefault =>
      obtain ⟨default, hmask, h⟩ := bind_ok_iff.mp h
      obtain ⟨hguard', hmask⟩ := checkMask_ok hmask
      replace hmask : default = node.updateFor desired true acl := hmask
      cases h
      refine ⟨?_, fun update => ⟨fun hupdate => ?_, ?_⟩⟩
      · rintro (_ | _) acl' hlist
        · cases hlist
          exact hguard
        · cases hdefault.symm.trans hlist
          exact hguard'
      · obtain hupdate | hupdate := List.mem_append.mp hupdate
        · exact hmem update hupdate
        · have hfield := isDefault_of_mem_updateFor (hmask ▸ hupdate)
          exact ⟨acl, by rw [hfield]; exact hdefault, by rw [hfield, ← hmask]; exact hupdate⟩
      · rintro ⟨acl', hlist, hupdate⟩
        cases hfield : update.isDefault with
        | false =>
            rw [hfield] at hlist hupdate
            cases hlist
            exact List.mem_append_left _ (haccess ▸ hupdate)
        | true =>
            rw [hfield] at hlist hupdate
            cases hdefault.symm.trans hlist
            exact List.mem_append_right _ (hmask ▸ hupdate)
  · next hdefault =>
      cases h
      refine ⟨?_, fun update => ⟨hmem update, ?_⟩⟩
      · rintro (_ | _) acl' hlist
        · cases hlist
          exact hguard
        · cases hdefault.symm.trans hlist
      · rintro ⟨acl', hlist, hupdate⟩
        cases hfield : update.isDefault with
        | false =>
            rw [hfield] at hlist hupdate
            cases hlist
            exact haccess ▸ hupdate
        | true => cases hdefault.symm.trans (hfield ▸ hlist)

/-! ## The whole script -/

variable {tree after : Tree} {previous : List Grant} {mountpoints : List Path}

def removals (tree : Tree) (previous desired : List Grant) : List Grant :=
  if hasChanged previous (present tree previous) desired then
    (present tree previous).insertionSort fun a b => b.length ≤ a.length
  else []

def additions (desired : List Grant) : List Grant :=
  desired.insertionSort fun a b => a.length ≤ b.length

/-- A node when its mask is set and the old grants are removed. -/
def cleared (tree : Tree) (previous desired : List Grant) (updates : List MaskUpdate)
    (node : Node) : Node :=
  removeAll (removals tree previous desired) (remask updates node)

theorem sameNode_cleared : SameNode node (cleared tree previous desired updates node) :=
  ⟨sameNode_removeAll.1.trans sameNode_remask.1, sameNode_removeAll.2.trans sameNode_remask.2⟩

theorem existingPrevious_ok (h : existingPrevious tree previous = .ok existing) :
    existing = present tree previous := by
  induction previous generalizing existing with
  | nil =>
      cases h
      rfl
  | cons grant rest ih =>
      obtain ⟨keep, hkeep, h⟩ := bind_ok_iff.mp h
      obtain ⟨kept, hkept, h⟩ := bind_ok_iff.mp h
      cases h
      have hiff : keep = decide (grant.path ∈ tree.nodes.map (·.path)) := by
        unfold available at hkeep
        split at hkeep
        · cases hkeep
        · split at hkeep
          · next hmem =>
              cases hkeep
              exact (decide_eq_true hmem).symm
          · next hmem =>
              cases hkeep
              exact (decide_eq_false hmem).symm
      rw [ih hkept, present, present, List.filter_cons, ← hiff]

theorem exists_affected {grants : List Grant} (h : grant ∈ grants) :
    ∃ entry ∈ affected grants, entry.path = grant.path ∧
      (grant.scope = .tree → entry.scope = .tree) := by
  unfold affected
  refine exists_of_mem_foldl_upsert (κ := Path)
    (R := fun x y => x.scope = .tree → y.scope = .tree)
    (fun _ => id) ?_ ?_ ?_ ?_ (.inr h)
  · intro row old hbetter _
    exact of_decide_eq_true hbetter
  · intro row old hworse hrow
    exact absurd hrow (of_decide_eq_false hworse)
  · intro x y z hxy hyz hx
    exact hyz (hxy hx)
  · exact List.nodup_nil

theorem Grant.covers_of_includes {path : Path} (h : grant.includes path = true) :
    grant.covers path = true := by
  simp only [includes, covers, Path.below, Bool.or_eq_true, Bool.and_eq_true] at h ⊢
  exact h.imp_right fun ⟨htree, ⟨_, hbelow⟩, _⟩ => ⟨htree, hbelow⟩

theorem exists_affected_covers {grants : List Grant} {path : Path} (hgrant : grant ∈ grants)
    (h : grant.covers path = true) : ∃ entry ∈ affected grants, entry.covers path = true := by
  obtain ⟨entry, hentry, hpath, hscope⟩ := exists_affected hgrant
  refine ⟨entry, hentry, ?_⟩
  simp only [Grant.covers, Bool.or_eq_true, Bool.and_eq_true, hpath, decide_eq_true_eq] at h ⊢
  exact h.imp_right (And.imp_left hscope)

/-- Missing bits are those of a grant that covers the path. -/
theorem Node.exists_covers_of_missing (h : node.missing desired isDefault acl ≠ ⊥) :
    ∃ grant ∈ desired, grant.covers node.path = true := by
  obtain ⟨bit, hbit⟩ := Function.ne_iff.mp h
  replace hbit : node.missing desired isDefault acl bit = true := Bool.eq_true_of_not_eq_false hbit
  simp only [missing, ShareAcl.missing, Bool.and_eq_true, List.any_eq_true] at hbit
  obtain ⟨⟨grant, hgrant, hincludes, -⟩, -⟩ := hbit
  exact ⟨grant, hgrant, Grant.covers_of_includes hincludes⟩

/-- The tree that `prepare` leaves. -/
structure Prepared (tree : Tree) (previous desired : List Grant) (updates : List MaskUpdate)
    (after : Tree) : Prop where
  desired_present : ∀ grant ∈ desired, grant.path ∈ tree.nodes.map (·.path)
  nodes : after.nodes = tree.nodes.map fun node =>
    addAll (additions desired) (cleared tree previous desired updates node)
  guarded : ∀ node ∈ tree.nodes, node.Guarded (present tree previous) desired
  masked : ∀ node ∈ tree.nodes, ∀ isDefault acl, node.list isDefault = some acl →
    ∃ masked, (remask updates node).list isDefault = some masked ∧ masked.base = acl.base ∧
      (∀ subject, masked.entry subject = acl.entry subject) ∧
      masked.groupClass = acl.groupClass ⊔ node.missing desired isDefault acl

/-- The entry of a user in a list is taken away with the old grants. -/
def IsRemoved (tree : Tree) (previous desired : List Grant) (node : Node) (isDefault : Bool)
    (subject : Subject) : Prop :=
  ∃ grant ∈ removals tree previous desired, grant.touches isDefault node = true ∧
    subject = .user grant.principal

instance : Decidable (IsRemoved tree previous desired node isDefault subject) :=
  inferInstanceAs (Decidable (∃ grant ∈ removals tree previous desired, _ ∧ _))

/-- The lists before the additions: the mask has its missing bits, and the entries of
removed grants are gone. -/
theorem Prepared.list_cleared (hprepared : Prepared tree previous desired updates after)
    (hnode : node ∈ tree.nodes) (subject : Subject) (hlist : node.list isDefault = some acl) :
    ∃ left, (cleared tree previous desired updates node).list isDefault = some left ∧
      left.base = acl.base ∧
      left.groupClass = acl.groupClass ⊔ node.missing desired isDefault acl ∧
      left.entry subject =
        if IsRemoved tree previous desired node isDefault subject then none
        else acl.entry subject := by
  obtain ⟨masked, hmasked, hbase, hentry, hclass⟩ :=
    hprepared.masked node hnode isDefault acl hlist
  obtain ⟨left, hleft, hclass', hbase', hentry'⟩ :=
    list_removeAll (removals tree previous desired) subject hmasked
  simp only [sameNode_remask.touches, hentry] at hentry'
  exact ⟨left, hleft, hbase'.trans hbase, hclass'.trans hclass, hentry'⟩

section Updates

variable {lists : List (List MaskUpdate)}
  (hlists : (affected (existing ++ desired)).mapM (maskUpdates tree existing desired) = .ok lists)

include hlists

theorem check_of_covers {entry : Grant} (hentry : entry ∈ affected (existing ++ desired))
    (hnode : node ∈ tree.nodes) (h : entry.covers node.path = true) :
    ∃ result, check existing desired node = .ok result ∧
      ∀ update ∈ result, update ∈ lists.flatten := by
  obtain ⟨updates, -, hupdates⟩ := exists_of_forall₂_left (forall₂_of_mapM hlists) hentry
  obtain ⟨results, hresults, hok⟩ := bind_ok_iff.mp hupdates
  cases hok
  have hsnapshot : node ∈ snapshot tree entry := List.mem_filter.mpr ⟨hnode, h⟩
  obtain ⟨result, -, hresult⟩ := exists_of_forall₂_left (forall₂_of_mapM hresults) hsnapshot
  refine ⟨result, hresult, fun update hupdate => ?_⟩
  exact (mem_flatten_of_mapM hlists).mpr ⟨entry, hentry, _, hupdates,
    (mem_flatten_of_mapM hresults).mpr ⟨node, hsnapshot, result, hresult, hupdate⟩⟩

theorem exists_check_of_mem {update : MaskUpdate} (h : update ∈ lists.flatten) :
    ∃ node ∈ tree.nodes, ∃ result, check existing desired node = .ok result ∧ update ∈ result := by
  obtain ⟨entry, hentry, updates, hupdates, hupdate⟩ := (mem_flatten_of_mapM hlists).mp h
  obtain ⟨results, hresults, hok⟩ := bind_ok_iff.mp hupdates
  cases hok
  obtain ⟨node, hnode, result, hresult, hmem⟩ := (mem_flatten_of_mapM hresults).mp hupdate
  exact ⟨node, List.mem_of_mem_filter hnode, result, hresult, hmem⟩

/-- Every update of a node is the one that its own lists ask for. -/
theorem mem_updateFor_of_mem (hnode : node ∈ tree.nodes) {update : MaskUpdate}
    (h : update ∈ lists.flatten) (hpath : update.path = node.path) :
    ∃ acl, node.list update.isDefault = some acl ∧
      update ∈ node.updateFor desired update.isDefault acl := by
  obtain ⟨source, hsource, result, hresult, hmem⟩ := exists_check_of_mem hlists h
  obtain ⟨acl, hlist, hupdate⟩ := ((check_ok hresult).2 update).mp hmem
  have hsame : source = node := by
    refine List.inj_on_of_nodup_map tree.paths_nodup hsource hnode ?_
    rw [← hpath, (mem_updateFor.mp hupdate).2]
  exact ⟨acl, hsame ▸ hlist, hsame ▸ hupdate⟩

theorem guarded_of_updates (hnode : node ∈ tree.nodes) : node.Guarded existing desired := by
  intro isDefault acl hlist entry hentry
  by_cases hmissing : node.missing desired isDefault acl = ⊥
  · rw [hmissing, inf_bot_eq]
  · obtain ⟨grant, hgrant, hcovers⟩ := Node.exists_covers_of_missing hmissing
    obtain ⟨source, hsource, hcovers⟩ :=
      exists_affected_covers (List.mem_append_right existing hgrant) hcovers
    obtain ⟨result, hresult, -⟩ := check_of_covers hlists hsource hnode hcovers
    exact (check_ok hresult).1 isDefault acl hlist entry hentry

theorem masked_of_updates (hnode : node ∈ tree.nodes) (hlist : node.list isDefault = some acl) :
    ∃ masked, (remask lists.flatten node).list isDefault = some masked ∧
      masked.base = acl.base ∧ (∀ subject, masked.entry subject = acl.entry subject) ∧
      masked.groupClass = acl.groupClass ⊔ node.missing desired isDefault acl := by
  have hmask : ∀ update ∈ lists.flatten, update.path = node.path → update.isDefault = isDefault →
      update.mask = acl.groupClass ⊔ node.missing desired isDefault acl := by
    rintro update hupdate hpath rfl
    obtain ⟨acl', hlist', hmem⟩ := mem_updateFor_of_mem hlists hnode hupdate hpath
    cases hlist.symm.trans hlist'
    rw [(mem_updateFor.mp hmem).2]
  obtain ⟨masked, hmasked, hbase, hentry, hclass⟩ := list_remask hlist hmask
  refine ⟨masked, hmasked, hbase, hentry, ?_⟩
  rw [hclass]
  split
  · rfl
  · next hnone =>
      -- a bit that is missing would have its update
      by_cases hmissing : node.missing desired isDefault acl = ⊥
      · rw [hmissing, sup_bot_eq]
      · obtain ⟨grant, hgrant, hcovers⟩ := Node.exists_covers_of_missing hmissing
        obtain ⟨source, hsource, hcovers⟩ :=
          exists_affected_covers (List.mem_append_right existing hgrant) hcovers
        obtain ⟨result, hresult, hmem⟩ := check_of_covers hlists hsource hnode hcovers
        let update : MaskUpdate :=
          ⟨node.path, isDefault, acl.groupClass ⊔ node.missing desired isDefault acl⟩
        have hupdate : update ∈ result :=
          ((check_ok hresult).2 update).mpr ⟨acl, hlist, mem_updateFor.mpr ⟨hmissing, rfl⟩⟩
        exact absurd ⟨update, hmem update hupdate, rfl, rfl⟩ hnone

end Updates

theorem available_ok {keep : Bool} (h : available tree true grant = .ok keep) :
    grant.path ∈ tree.nodes.map (·.path) := by
  unfold available at h
  split at h
  · cases h
  · split at h
    · next hmem => exact hmem
    · cases h

theorem removed_nodes {updates : List MaskUpdate} :
    (if hasChanged previous (present tree previous) desired then
      removeGrants (applyUpdates tree updates)
        ((present tree previous).insertionSort fun a b => b.length ≤ a.length)
    else applyUpdates tree updates).nodes =
      tree.nodes.map fun node =>
        cleared tree previous desired updates node := by
  have hmasked : (applyUpdates tree updates).nodes = tree.nodes.map (remask updates) :=
    nodes_foldl_map MaskUpdate.apply_path updates tree
  unfold cleared removals
  split
  · rw [removeGrants, nodes_foldl_map Grant.removeFrom_path, hmasked, List.map_map]
    rfl
  · rw [hmasked]
    rfl

theorem prepare_ok (h : prepare tree mountpoints previous desired = .ok after) :
    ∃ updates, Prepared tree previous desired updates after := by
  obtain ⟨_, -, h⟩ := bind_ok_iff.mp h
  obtain ⟨_, -, h⟩ := bind_ok_iff.mp h
  obtain ⟨existing, hexisting, h⟩ := bind_ok_iff.mp h
  obtain ⟨_, havailable, h⟩ := bind_ok_iff.mp h
  obtain ⟨_, -, h⟩ := bind_ok_iff.mp h
  obtain ⟨lists, hlists, h⟩ := bind_ok_iff.mp h
  obtain ⟨_, -, h⟩ := bind_ok_iff.mp h
  cases h
  cases existingPrevious_ok hexisting
  refine ⟨lists.flatten, ?_, ?_, ?_, ?_⟩
  · intro grant hgrant
    have hok := ok_of_forM havailable hgrant
    cases hkeep : available tree true grant with
    | error => cases hkeep ▸ hok
    | ok keep => exact available_ok hkeep
  · rw [addGrants, nodes_foldl_map Grant.addTo_path, removed_nodes, List.map_map]
    rfl
  · exact fun node hnode => guarded_of_updates hlists hnode
  · exact fun node hnode isDefault acl hlist => masked_of_updates hlists hnode hlist

end Zos.Hostd.ShareAcl
