import Zos.Proofs.AclSteps

/-!
# Whose access grows

A grant can need bits that the mask of a list does not have. The script adds them to the
mask, and every other entry of the list that has such a bit would gain it. For entries it
does not look after it refuses to go on; but it looks after the user `zos`, and after
every principal of a grant at all paths, not only at those that the grant covers. An
entry of such a user is widened where it stays (`effective_prepared`). A directory that
had no default list gets one, with the rights of the owning group in it.
-/

namespace Zos.Hostd.ShareAcl

open Zos.Lib

variable {tree after : Tree} {previous desired : List Grant} {updates : List MaskUpdate}
  {node : Node} {subject : Subject} {isDefault : Bool} {acl : Acl}

def effectiveIn (list : Option Acl) (subject : Subject) : Perm :=
  list.elim ⊥ (·.effective subject)

/-- A desired grant for the subject covers the path. -/
def Granted (desired : List Grant) (path : Path) (subject : Subject) : Prop :=
  ∃ grant ∈ desired, subject = .user grant.principal ∧ grant.covers path = true

def NoWidening (before after : Tree) (desired : List Grant) : Prop :=
  ∀ old ∈ before.nodes, ∀ new ∈ after.nodes, new.path = old.path →
    ∀ subject, ¬Granted desired old.path subject → ∀ isDefault,
      effectiveIn (new.list isDefault) subject ≤ effectiveIn (old.list isDefault) subject

/-- No entry that the script looks after and leaves in place has a bit that its mask is
about to gain, and a default list that is about to be made has no rights for the group. -/
structure SafeMasks (tree : Tree) (previous desired : List Grant) : Prop where
  kept_entries : ∀ node ∈ tree.nodes, ∀ isDefault acl, node.list isDefault = some acl →
    ∀ name entry, acl.user name = some entry →
      isManaged (present tree previous) desired name = true →
      ¬Granted desired node.path (.user name) →
      ¬IsRemoved tree previous desired node isDefault (.user name) →
        entry ⊓ node.missing desired isDefault acl = ⊥
  new_defaults : ∀ node ∈ tree.nodes, node.default = none →
    (∃ grant ∈ desired, grant.touches true node = true) → node.access.group = ⊥

/-! ## One list -/

theorem missing_inf_groupClass : node.missing desired isDefault acl ⊓ acl.groupClass = ⊥ := by
  funext bit
  simp [Node.missing, missing]

theorem inf_sup_le_iff {entry mask missing : Perm} (h : missing ⊓ mask = ⊥) :
    entry ⊓ (mask ⊔ missing) ≤ entry ⊓ mask ↔ entry ⊓ missing = ⊥ := by
  constructor
  · intro hle
    refine le_bot_iff.mp (h ▸ le_inf inf_le_right ?_)
    exact ((inf_le_inf_left entry le_sup_right).trans hle).trans inf_le_right
  · intro hbot
    rw [inf_sup_left, hbot, sup_bot_eq]

section AfterPrepare

variable (hprepared : Prepared tree previous desired updates after) (hnode : node ∈ tree.nodes)
  (hsubject : ¬Granted desired node.path subject)

include hsubject in
theorem subject_ne_of_touches {later : Node} (hsame : SameNode node later) :
    ∀ grant ∈ additions desired, grant.touches isDefault later = true →
      subject ≠ .user grant.principal := by
  intro grant hgrant htouches hown
  refine hsubject ⟨grant, (List.mem_insertionSort _).mp hgrant, hown, ?_⟩
  rw [hsame.touches] at htouches
  exact (Bool.and_eq_true_iff.mp htouches).1

include hprepared hnode hsubject

/-- What a list gives in the end to somebody without a grant. -/
theorem effective_prepared (hlist : node.list isDefault = some acl) :
    effectiveIn ((addAll (additions desired)
        (cleared tree previous desired updates node)).list isDefault) subject =
      if IsRemoved tree previous desired node isDefault subject then ⊥
      else (acl.entry subject).getD ⊥ ⊓
        (acl.groupClass ⊔ node.missing desired isDefault acl) := by
  obtain ⟨left, hleft, -, hclass, hentry⟩ := hprepared.list_cleared hnode subject hlist
  have hfinal : ∃ final, (addAll (additions desired)
        (cleared tree previous desired updates node)).list isDefault = some final ∧
      final.groupClass = left.groupClass ∧ final.entry subject = left.entry subject := by
    by_cases htouched : ∃ grant ∈ additions desired, grant.touches isDefault
        (cleared tree previous desired updates node) = true
    · have h := list_addAll (subject_ne_of_touches hsubject sameNode_cleared) htouched
      rwa [Node.start, hleft, Option.getD_some] at h
    · refine ⟨left, (list_addAll_of_untouched ?_).trans hleft, rfl, rfl⟩
      simpa using htouched
  obtain ⟨final, hfinal, hclass', hentry'⟩ := hfinal
  rw [hfinal, effectiveIn, Option.elim_some, Acl.effective_eq, hentry', hentry, hclass', hclass]
  by_cases hremoved : IsRemoved tree previous desired node isDefault subject
  · rw [if_pos hremoved, if_pos hremoved, Option.getD_none, bot_inf_eq]
  · rw [if_neg hremoved, if_neg hremoved]

/-- A default list that was not there before. -/
theorem effective_new_default (hnone : node.default = none)
    (htouched : ∃ grant ∈ desired, grant.touches true node = true) :
    effectiveIn ((addAll (additions desired)
        (cleared tree previous desired updates node)).list true) subject =
      if subject = .owningGroup then node.access.group else ⊥ := by
  obtain ⟨left, hleft, hbase, -, -⟩ :=
    hprepared.list_cleared hnode .owningGroup node.list_access
  have hmasked : (remask updates node).list true = none := list_remask_none hnone
  have hcleared : (cleared tree previous desired updates node).list true = none :=
    list_removeAll_none hmasked
  have htouched' : ∃ grant ∈ additions desired,
      grant.touches true (cleared tree previous desired updates node) = true := by
    obtain ⟨grant, hgrant, htouches⟩ := htouched
    exact ⟨grant, (List.mem_insertionSort _).mpr hgrant, sameNode_cleared.touches.trans htouches⟩
  obtain ⟨final, hfinal, hclass, hentry⟩ :=
    list_addAll (subject_ne_of_touches hsubject sameNode_cleared) htouched'
  rw [Node.start, hcleared, Option.getD_none, Option.some.inj hleft, hbase] at hclass hentry
  rw [hfinal, effectiveIn, Option.elim_some, Acl.effective_eq, hclass, hentry]
  cases subject with
  | user | group => exact bot_inf_eq _
  | owningGroup => exact inf_idem _

/-- When a list that was there gives no more. -/
theorem effective_prepared_le_iff (hlist : node.list isDefault = some acl) :
    effectiveIn ((addAll (additions desired)
        (cleared tree previous desired updates node)).list isDefault) subject ≤
          effectiveIn (node.list isDefault) subject ↔
      IsRemoved tree previous desired node isDefault subject ∨
        (acl.entry subject).getD ⊥ ⊓ node.missing desired isDefault acl = ⊥ := by
  rw [effective_prepared hprepared hnode hsubject hlist, hlist]
  by_cases hremoved : IsRemoved tree previous desired node isDefault subject
  · rw [if_pos hremoved]
    exact iff_of_true bot_le (.inl hremoved)
  · rw [if_neg hremoved, or_iff_right hremoved, effectiveIn, Option.elim_some, Acl.effective_eq]
    exact inf_sup_le_iff missing_inf_groupClass

end AfterPrepare

/-- An entry that the script does not look after has no bit that a mask gains. -/
theorem entry_of_guarded (hguarded : node.Guarded (present tree previous) desired)
    (hlist : node.list isDefault = some acl)
    (hmanaged : ∀ name, subject = .user name →
      isManaged (present tree previous) desired name = false) :
    (acl.entry subject).getD ⊥ ⊓ node.missing desired isDefault acl = ⊥ := by
  cases hentry : acl.entry subject with
  | none => exact bot_inf_eq _
  | some entry =>
      refine hguarded isDefault acl hlist entry ?_
      unfold unmanaged
      cases subject with
      | user name =>
          refine List.mem_append_left _ (List.mem_map.mpr ⟨(name, entry), ?_, rfl⟩)
          exact List.mem_filter.mpr ⟨mem_of_lookup hentry, by simp [hmanaged name rfl]⟩
      | group name =>
          refine List.mem_append_right _ (List.mem_cons_of_mem _ ?_)
          exact List.mem_map.mpr ⟨(name, entry), mem_of_lookup hentry, rfl⟩
      | owningGroup =>
          cases hentry
          exact List.mem_append_right _ List.mem_cons_self

theorem noWidening_iff (hprepared : Prepared tree previous desired updates after) :
    NoWidening tree after desired ↔
      ∀ node ∈ tree.nodes, ∀ subject, ¬Granted desired node.path subject → ∀ isDefault,
        effectiveIn ((addAll (additions desired)
          (cleared tree previous desired updates node)).list isDefault) subject ≤
            effectiveIn (node.list isDefault) subject := by
  constructor
  · intro h node hnode
    exact h node hnode _ (hprepared.nodes ▸ List.mem_map_of_mem hnode)
      (sameNode_addAll.1.trans sameNode_cleared.1)
  · intro h old hold new hnew hpath
    rw [hprepared.nodes] at hnew
    obtain ⟨node, hnode, rfl⟩ := List.mem_map.mp hnew
    rw [sameNode_addAll.1, sameNode_cleared.1] at hpath
    cases List.inj_on_of_nodup_map tree.paths_nodup hnode hold hpath
    exact h old hold

/-- Nobody else's access grows when, and only when, the masks are safe. -/
theorem noWidening_iff_safeMasks {before after : Tree} {mountpoints : List Path}
    {previous desired : List Grant}
    (hprepare : prepare before mountpoints previous desired = .ok after) :
    NoWidening before after desired ↔ SafeMasks before previous desired := by
  obtain ⟨updates, hprepared⟩ := prepare_ok hprepare
  rw [noWidening_iff hprepared]
  constructor
  · intro h
    constructor
    · intro node hnode isDefault acl hlist name entry hentry _ hgranted hremoved
      have hle := h node hnode (.user name) hgranted isDefault
      rw [effective_prepared_le_iff hprepared hnode hgranted hlist] at hle
      have hbot := hle.resolve_left hremoved
      rwa [Acl.entry, hentry] at hbot
    · intro node hnode hnone htouched
      have hgranted : ¬Granted desired node.path .owningGroup := by
        rintro ⟨_, _, h, _⟩
        cases h
      have hle := h node hnode .owningGroup hgranted true
      rw [effective_new_default hprepared hnode hgranted hnone htouched, if_pos rfl,
        Node.list, if_pos rfl, hnone] at hle
      exact le_bot_iff.mp hle
  · intro hsafe node hnode subject hgranted isDefault
    cases hlist : node.list isDefault with
    | some acl =>
        rw [← hlist, effective_prepared_le_iff hprepared hnode hgranted hlist]
        -- the guard speaks of the entries that are not looked after, the condition of the others
        by_cases hmanaged : ∃ name, subject = .user name ∧
            isManaged (present before previous) desired name = true
        · obtain ⟨name, rfl, hmanaged⟩ := hmanaged
          by_cases hremoved : IsRemoved before previous desired node isDefault (.user name)
          · exact .inl hremoved
          · right
            cases hentry : acl.entry (.user name) with
            | none => exact bot_inf_eq _
            | some entry =>
                exact hsafe.kept_entries node hnode isDefault acl hlist name entry hentry hmanaged
                  hgranted hremoved
        · right
          refine entry_of_guarded (hprepared.guarded node hnode) hlist fun name hname => ?_
          simpa using fun h => hmanaged ⟨name, hname, h⟩
    | none =>
        cases isDefault with
        | false => cases hlist
        | true =>
            by_cases htouched : ∃ grant ∈ desired, grant.touches true node = true
            · rw [effective_new_default hprepared hnode hgranted hlist htouched,
                hsafe.new_defaults node hnode hlist htouched, ite_self]
              exact bot_le
            · have huntouched : ∀ grant ∈ additions desired,
                  grant.touches true (cleared before previous desired updates node) = false := by
                intro grant hgrant
                rw [sameNode_cleared.touches]
                simpa using fun h => htouched ⟨grant, (List.mem_insertionSort _).mp hgrant, h⟩
              have hcleared : (cleared before previous desired updates node).list true = none :=
                list_removeAll_none (list_remask_none hlist)
              rw [list_addAll_of_untouched huntouched, hcleared]

/-! ## Two directories -/

def directory (path : Path) (access : Acl) : Node := ⟨path, .directory none, access⟩

/-- The mode `rwx------`. -/
def privateAcl : Acl := .ofMode (perm true true true) ⊥ ⊥

/-- All rights for one user, of which the mask leaves reading. -/
def maskedAcl (user : String) : Acl :=
  ⟨perm true true true, ⊥, ⊥, [(user, ⊤)], [], some (perm true false true), fun h => nomatch h⟩

/-- The directories `/docs` and `/music`. -/
def twoDirectories (docs music : Acl) : Tree where
  nodes := [directory [] privateAcl, directory ["docs"] docs, directory ["music"] music]
  links := []
  paths_nodup := show ([[], ["docs"], ["music"]] : List Path).Nodup by decide
  names_ne := by
    intro node hnode
    have hpath : node.path ∈ ([[], ["docs"], ["music"]] : List Path) := by
      simpa [directory] using List.mem_map_of_mem (f := Node.path) hnode
    revert hpath
    generalize node.path = path
    revert path
    decide
  closed := by
    intro node hnode path hpath
    have hinits : ∀ outer ∈ ([[], ["docs"], ["music"]] : List Path), ∀ path ∈ outer.inits,
        path ∈ ([[], ["docs"], ["music"]] : List Path) := by decide
    refine hinits node.path ?_ path ((List.mem_inits _ _).mpr hpath)
    simpa [directory] using List.mem_map_of_mem (f := Node.path) hnode

/-- Alice has the documents, and Bob the music to read. -/
def sharedWith (access : Access) : List Grant :=
  [⟨["docs"], "alice", access, .tree⟩, ⟨["music"], "bob", .read, .tree⟩]

/-- Alice may read the documents and is to write them, so that the mask there is raised. -/
theorem noWidening_raised :
    ∃ after, prepare (twoDirectories (maskedAcl "alice") (maskedAcl "bob")) []
        (sharedWith .read) (sharedWith .write) = .ok after ∧
      (∃ node ∈ after.nodes, node.access.effective (.user "alice") .write = true) ∧
      NoWidening (twoDirectories (maskedAcl "alice") (maskedAcl "bob")) after
        (sharedWith .write) := by
  have hrun : (prepare (twoDirectories (maskedAcl "alice") (maskedAcl "bob")) []
      (sharedWith .read) (sharedWith .write)).toOption.any (fun after =>
        after.nodes.any fun node => node.access.effective (.user "alice") .write) = true := by
    decide +kernel
  obtain ⟨after, hafter, hany⟩ := (Option.any_eq_true _ _).mp hrun
  have hprepare := toOption_eq_some_iff.mp hafter
  refine ⟨after, hprepare, List.any_eq_true.mp hany,
    (noWidening_iff_safeMasks hprepare).mpr ⟨?_, ?_⟩⟩
  · intro node hnode isDefault acl hlist name entry hentry _ hgranted
    refine absurd ?_ hgranted
    simp only [twoDirectories, directory, List.mem_cons, List.not_mem_nil, or_false] at hnode
    rcases hnode with rfl | rfl | rfl <;> cases isDefault <;> cases hlist
    · cases hentry
    all_goals
      cases List.mem_singleton.mp (mem_of_lookup hentry)
      simp [Granted, Grant.covers, sharedWith]
  · intro node hnode _ _
    simp only [twoDirectories, directory, List.mem_cons, List.not_mem_nil, or_false] at hnode
    rcases hnode with rfl | rfl | rfl <;> rfl

/-- Bob shares the music to read, and has rights to the documents that the mask holds
back. When the documents are shared with Alice, Bob can write there. -/
theorem sharing_unmasks_other_user :
    ∃ after, prepare (twoDirectories (maskedAcl "bob") (maskedAcl "bob")) []
        [⟨["music"], "bob", .read, .tree⟩]
        [⟨["docs"], "alice", .write, .tree⟩, ⟨["music"], "bob", .read, .tree⟩] = .ok after ∧
      ¬NoWidening (twoDirectories (maskedAcl "bob") (maskedAcl "bob")) after
        [⟨["docs"], "alice", .write, .tree⟩, ⟨["music"], "bob", .read, .tree⟩] := by
  have hrun : (prepare (twoDirectories (maskedAcl "bob") (maskedAcl "bob")) []
      [⟨["music"], "bob", .read, .tree⟩]
      [⟨["docs"], "alice", .write, .tree⟩, ⟨["music"], "bob", .read, .tree⟩]).toOption.any
        (fun after => after.nodes.any fun node =>
          node.path = ["docs"] && node.access.effective (.user "bob") .write) = true := by
    decide +kernel
  obtain ⟨after, hafter, hany⟩ := (Option.any_eq_true _ _).mp hrun
  obtain ⟨node, hnode, hgains⟩ := List.any_eq_true.mp hany
  obtain ⟨hpath, hwrite⟩ := Bool.and_eq_true_iff.mp hgains
  refine ⟨after, toOption_eq_some_iff.mp hafter, fun h => ?_⟩
  have hle := h (directory ["docs"] (maskedAcl "bob")) (by simp [twoDirectories]) node hnode
    (of_decide_eq_true hpath) (.user "bob") (by simp [Granted, Grant.covers, directory])
    false .write
  exact absurd (hle hwrite) (by decide)

end Zos.Hostd.ShareAcl
