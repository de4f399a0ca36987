import Zos.Proofs.AclSteps

/-!
# Entries against grants

Grants are added from the shortest path to the longest, and an entry that is set again
replaces the one before. So the entry that a principal has at a path in the end is that
of the deepest grant for it that covers the path (`user_prepared`): what the grants above
ask for is there when no grant below asks for less. The list that `grants_for` builds
does have such grants. A share below another one makes traverse grants of the
directories between the two, and these take reading and writing away there.
-/

namespace Zos.Hostd.ShareAcl

open Zos.Lib

variable {tree after : Tree} {previous desired grants : List Grant} {grant other : Grant}
  {updates : List MaskUpdate} {node : Node} {principal : String}

/-! ## Grants of shares -/

theorem grantsFor_keys (settings : ShareSettings) (shares : List ResolvedShare) :
    ((grantsFor settings shares).map Grant.key).Nodup := by
  unfold grantsFor
  split
  · exact ((List.perm_insertionSort _ _).map _).nodup_iff.mpr (foldl_upsert_keys List.nodup_nil)
  · exact List.nodup_nil

theorem Protocol.access_ne (protocol : Protocol) : protocol.access ≠ .traverse := by
  unfold access
  split <;> decide

theorem Protocol.access_of_mem {protocol : Protocol} {account name : String}
    {guest : Option String} {access : Access}
    (h : (name, access) ∈ protocol.identities account guest) : access = protocol.access := by
  unfold identities at h
  split at h
  · obtain h | h := List.mem_cons.mp h
    · exact congrArg Prod.snd h
    · split at h
      · obtain ⟨_, -, h⟩ := List.mem_map.mp h
        exact (congrArg Prod.snd h).symm
      · cases h
  · cases h

theorem access_of_identity {settings : ShareSettings} {share : ResolvedShare} {name : String}
    {access : Access} (h : (name, access) ∈ identities settings share) : access ≠ .traverse := by
  simp only [identities, List.mem_append] at h
  obtain (((h | h) | h) | h) | h := h
  · exact Protocol.access_of_mem h ▸ Protocol.access_ne _
  · exact Protocol.access_of_mem h ▸ Protocol.access_ne _
  · exact Protocol.access_of_mem h ▸ Protocol.access_ne _
  · split at h
    · cases List.mem_singleton.mp h
      decide
    · cases h
  · exact Protocol.access_of_mem h ▸ Protocol.access_ne _

theorem access_of_tree {settings : ShareSettings} {shares : List ResolvedShare}
    (h : grant ∈ grantsFor settings shares) (htree : grant.scope = .tree) :
    grant.access ≠ .traverse := by
  unfold grantsFor at h
  split at h
  · obtain hnil | hmem := mem_of_mem_foldl_upsert ((List.mem_insertionSort _).mp h)
    · cases hnil
    · obtain ⟨share, -, hshare⟩ := List.mem_flatMap.mp hmem
      obtain ⟨⟨name, access⟩, hidentity, hgrant⟩ := List.mem_flatMap.mp hshare
      obtain rfl | hparent := List.mem_cons.mp hgrant
      · exact access_of_identity hidentity
      · obtain ⟨path, -, rfl⟩ := List.mem_map.mp hparent
        cases htree
  · cases h

/-! ## Paths -/

theorem Path.text_concat {path : Path} (h : path ≠ []) (name : String) :
    Path.text (path ++ [name]) = path.text ++ "/" ++ name := by
  rw [text, if_neg (by simp), text, if_neg h, ← joinSegments_concat (List.cons_ne_nil _ _)]
  rfl

theorem Path.utf16Length_lt_concat {path : Path} {name : String} (hname : name ≠ "") :
    utf16Length path.text < utf16Length (Path.text (path ++ [name])) := by
  by_cases h : path = []
  · have htext : Path.text ([] ++ [name]) = "/" ++ name := by
      rw [text, if_neg (by simp)]
      exact joinSegments_concat (List.cons_ne_nil "" []) name
    rw [h, htext, utf16Length_append]
    have hroot : utf16Length (Path.text []) = utf16Length "/" := rfl
    have hpos := utf16Length_pos hname
    omega
  · rw [text_concat h, utf16Length_append, utf16Length_append]
    have hslash : utf16Length "/" = 1 := by decide
    omega

theorem Path.utf16Length_lt {outer path : Path} (hnames : "" ∉ path) (hpre : outer <+: path)
    (hne : outer ≠ path) : utf16Length outer.text < utf16Length path.text := by
  obtain ⟨rest, rfl⟩ := hpre
  induction rest using List.reverseRecOn with
  | nil => exact absurd (List.append_nil outer).symm hne
  | append_singleton rest name ih =>
      rw [← List.append_assoc] at hnames ⊢
      have hlast : utf16Length (Path.text (outer ++ rest)) <
          utf16Length (Path.text (outer ++ rest ++ [name])) :=
        utf16Length_lt_concat fun e => hnames (by simp [e])
      by_cases hrest : rest = []
      · simpa [hrest] using hlast
      · refine (ih (fun h => hnames (List.mem_append_left _ h)) ?_).trans hlast
        simpa using hrest

theorem Grant.prefix_of_covers {path : Path} (h : grant.covers path = true) :
    grant.path <+: path := by
  simp only [covers, Bool.or_eq_true, Bool.and_eq_true, decide_eq_true_eq] at h
  obtain rfl | ⟨-, hpre⟩ := h
  · exact List.prefix_rfl
  · exact List.isPrefixOf_iff_prefix.mp hpre

/-! ## The entry of a principal -/

theorem Grant.access_addTo (grant : Grant) (node : Node) :
    (grant.addTo node).access =
      if grant.covers node.path then
        node.access.modifyUser grant.principal
          (grant.access.perm (node.isDirectory || node.access.hasExecute))
      else node.access := by
  have h := grant.list_addTo node false
  simp only [Node.list, touches, Bool.false_eq_true, if_false, Bool.not_false, Bool.true_or,
    Bool.and_true, Bool.false_or, Option.getD_some] at h
  split at h <;> simp_all

theorem isExecutable_addAll :
    (addAll grants node).access.isExecutable = node.access.isExecutable := by
  induction grants generalizing node with
  | nil => rfl
  | cons grant rest ih =>
      rw [addAll, List.foldl_cons, ← addAll, ih, Grant.access_addTo]
      split <;> rfl

/-- The last grant for a principal that covers a path. -/
def lastGrant (grants : List Grant) (principal : String) (path : Path) : Option Grant :=
  grants.reverse.find? fun grant => grant.principal = principal && grant.covers path

theorem lastGrant_concat (last : Grant) (path : Path) :
    lastGrant (grants ++ [last]) principal path =
      if last.principal = principal ∧ last.covers path = true then some last
      else lastGrant grants principal path := by
  unfold lastGrant
  rw [List.reverse_append, List.reverse_singleton, List.singleton_append, List.find?_cons]
  by_cases h : last.principal = principal ∧ last.covers path = true
  · simp [h.1, h.2]
  · have hnot : (decide (last.principal = principal) && last.covers path) = false := by
      simpa using h
    rw [if_neg h, hnot]

theorem addAll_concat (last : Grant) :
    addAll (grants ++ [last]) node = last.addTo (addAll grants node) := by
  rw [addAll, List.foldl_append]
  rfl

/-- The grants for other principals, and those that do not cover the path, leave the
entry. -/
theorem Grant.user_addTo_of_not
    (h : ¬(grant.principal = principal ∧ grant.covers node.path = true)) :
    (grant.addTo node).access.user principal = node.access.user principal := by
  rw [access_addTo]
  split
  · next hcovers =>
      rw [Acl.user_modifyUser, if_neg fun e => h ⟨e.symm, hcovers⟩]
  · rfl

theorem user_addAll_of_none (h : lastGrant grants principal node.path = none) :
    (addAll grants node).access.user principal = node.access.user principal := by
  induction grants using List.reverseRecOn with
  | nil => rfl
  | append_singleton rest last ih =>
      rw [lastGrant_concat] at h
      split at h
      · cases h
      · next hlast =>
          rw [addAll_concat, Grant.user_addTo_of_not (by rwa [sameNode_addAll.1]), ih h]

theorem user_addAll_of_some (h : lastGrant grants principal node.path = some grant) :
    ∃ execute, (addAll grants node).access.user principal = some (grant.access.perm execute) ∧
      ((node.isDirectory || node.access.isExecutable) = true → execute = true) := by
  induction grants using List.reverseRecOn with
  | nil => cases h
  | append_singleton rest last ih =>
      rw [lastGrant_concat] at h
      rw [addAll_concat]
      split at h
      · next hlast =>
          cases h
          refine ⟨(addAll rest node).isDirectory || (addAll rest node).access.hasExecute, ?_,
            fun hexecute => ?_⟩
          · rw [Grant.access_addTo, sameNode_addAll.1, if_pos hlast.2, Acl.user_modifyUser,
              if_pos hlast.1.symm]
          · rw [sameNode_addAll.2]
            obtain hdirectory | hexecutable := Bool.or_eq_true_iff.mp hexecute
            · rw [hdirectory, Bool.true_or]
            · rw [Acl.hasExecute_of_isExecutable (isExecutable_addAll.trans hexecutable),
                Bool.or_true]
      · next hlast =>
          rw [Grant.user_addTo_of_not (by rwa [sameNode_addAll.1])]
          exact ih h

/-! ## The deepest grant -/

theorem pairwise_additions (desired : List Grant) :
    (additions desired).Pairwise fun a b => a.length ≤ b.length := by
  have : Std.Total fun a b : Grant => a.length ≤ b.length := ⟨fun a b => Nat.le_total _ _⟩
  have : IsTrans Grant fun a b => a.length ≤ b.length := ⟨fun _ _ _ => Nat.le_trans⟩
  exact List.pairwise_insertionSort _ desired

theorem mem_additions : grant ∈ additions desired ↔ grant ∈ desired :=
  List.mem_insertionSort _

theorem lastGrant_eq_none {path : Path} :
    lastGrant (additions desired) principal path = none ↔
      ∀ grant ∈ desired, grant.principal = principal → grant.covers path = false := by
  simp [lastGrant, mem_additions]

/-- The last grant for a path is the deepest one: every other is a tree grant above it. -/
theorem lastGrant_deepest {path : Path} (hkeys : (desired.map Grant.key).Nodup)
    (hnames : "" ∉ path) (h : lastGrant (additions desired) principal path = some grant) :
    (grant ∈ desired ∧ grant.principal = principal ∧ grant.covers path = true) ∧
      ∀ other ∈ desired, other.principal = principal → other.covers path = true →
        other = grant ∨ (other.scope = .tree ∧ other.path <+: grant.path) := by
  obtain ⟨hgrant, before, rest, hsplit, hbefore⟩ := List.find?_eq_some_iff_append.mp h
  simp only [Bool.and_eq_true, decide_eq_true_eq] at hgrant
  have hmem : ∀ other, other ∈ before ++ grant :: rest ↔ other ∈ desired := fun other => by
    rw [← hsplit, List.mem_reverse, mem_additions]
  refine ⟨⟨(hmem grant).mp (by simp), hgrant⟩, fun other hother hprincipal hcovers => ?_⟩
  -- the list is sorted, and what stands after the grant does not apply
  have hle : other.length ≤ grant.length := by
    have hsorted := List.pairwise_reverse.mpr (pairwise_additions desired)
    rw [hsplit, List.pairwise_append, List.pairwise_cons] at hsorted
    obtain hmem | hmem := List.mem_append.mp ((hmem other).mpr hother)
    · have := hbefore other hmem
      simp [hprincipal, hcovers] at this
    · obtain rfl | hmem := List.mem_cons.mp hmem
      · exact Nat.le_refl _
      · exact hsorted.2.1.1 other hmem
  by_cases hpath : other.path = grant.path
  · left
    refine List.inj_on_of_nodup_map hkeys hother ((hmem grant).mp (by simp)) ?_
    rw [Grant.key, Grant.key, hpath, hprincipal, hgrant.1]
  · right
    have hother' := Grant.prefix_of_covers hcovers
    have hgrant' := Grant.prefix_of_covers hgrant.2
    obtain habove | hbelow := List.prefix_or_prefix_of_prefix hother' hgrant'
    · refine ⟨?_, habove⟩
      have hne : other.path ≠ path := fun e =>
        hpath (habove.eq_of_length_le (e ▸ hgrant'.length_le))
      simp only [Grant.covers, Bool.or_eq_true, Bool.and_eq_true, decide_eq_true_eq] at hcovers
      exact (hcovers.resolve_left hne).1
    · have hlt : grant.length < other.length :=
        Path.utf16Length_lt (fun hname => hnames (hother'.subset hname)) hbelow (Ne.symm hpath)
      omega

/-! ## Before and after -/

/-- The principals of the grants have no entries but those that the grants gave them. -/
def OnlyGranted (tree : Tree) (previous desired : List Grant) : Prop :=
  ∀ node ∈ tree.nodes, ∀ principal ∈ (previous ++ desired).map (·.principal),
    (node.access.user principal).isSome = true →
      ∃ grant ∈ previous, grant.principal = principal ∧ grant.covers node.path = true

/-- What a grant asks for at a node it covers: `X` is for directories and executables. -/
def Grant.asks (grant : Grant) (node : Node) : Perm :=
  grant.access.perm (node.isDirectory || node.access.isExecutable)

/-- The entries of the principals are exactly the grants. -/
def Exact (before after : Tree) (previous desired : List Grant) : Prop :=
  ∀ old ∈ before.nodes, ∀ new ∈ after.nodes, new.path = old.path →
    ∀ principal ∈ (previous ++ desired).map (·.principal),
      (∀ grant ∈ desired, grant.principal = principal → grant.covers old.path = true →
        ∃ entry, new.access.user principal = some entry ∧ grant.asks old ≤ entry) ∧
      ((∀ grant ∈ desired, grant.principal = principal → grant.covers old.path = false) →
        new.access.user principal = none)

/-- No grant below a tree grant for the same principal has less access. -/
def NoWeakerBelow (desired : List Grant) : Prop :=
  ∀ outer ∈ desired, ∀ inner ∈ desired, outer.principal = inner.principal →
    outer.scope = .tree → outer.path <+: inner.path → outer.access.rank ≤ inner.access.rank

theorem isKept_elim (h : isKept desired grant = true) :
    ∃ counterpart ∈ desired, counterpart.key = grant.key ∧ counterpart.scope = grant.scope := by
  unfold isKept at h
  split at h
  · next counterpart hfind =>
      simp only [Bool.and_eq_true, decide_eq_true_eq] at h
      exact ⟨counterpart, List.mem_reverse.mp (List.mem_of_find?_eq_some hfind),
        by simpa using List.find?_some hfind, h.2⟩
  · cases h

/-- An old grant that covers a node and no desired one does is removed. -/
theorem mem_removals (hnode : node ∈ tree.nodes) (hgrant : grant ∈ previous)
    (hcovers : grant.covers node.path = true)
    (hnone : ∀ g ∈ desired, g.principal = grant.principal → g.covers node.path = false) :
    grant ∈ removals tree previous desired := by
  have hpresent : grant ∈ present tree previous := by
    refine List.mem_filter.mpr ⟨hgrant, ?_⟩
    simpa using tree.closed node hnode grant.path (Grant.prefix_of_covers hcovers)
  have hchanged : hasChanged previous (present tree previous) desired = true := by
    by_contra hkept
    simp only [hasChanged, Bool.or_eq_true, not_or, List.any_eq_true, not_exists, not_and] at hkept
    obtain ⟨counterpart, hmem, hkey, hscope⟩ := isKept_elim (by simpa using hkept.1.2 grant hgrant)
    obtain ⟨hpath, hprincipal⟩ := Prod.ext_iff.mp hkey
    have hsame : counterpart.covers node.path = grant.covers node.path := by
      rw [Grant.covers, Grant.covers, hscope, show counterpart.path = grant.path from hpath]
    rw [hnone counterpart hmem hprincipal, hcovers] at hsame
    cases hsame
  rw [removals, if_pos hchanged]
  exact (List.mem_insertionSort _).mpr hpresent

section AfterPrepare

variable (hprepared : Prepared tree previous desired updates after) (hnode : node ∈ tree.nodes)

include hprepared hnode

theorem executes_cleared (hexecute : (node.isDirectory || node.access.isExecutable) = true) :
    ((cleared tree previous desired updates node).isDirectory ||
      (cleared tree previous desired updates node).access.isExecutable) = true := by
  obtain ⟨left, hleft, hbase, hclass, -⟩ :=
    hprepared.list_cleared hnode .owningGroup node.list_access
  rw [sameNode_cleared.2, Option.some.inj hleft]
  obtain hdirectory | hexecutable := Bool.or_eq_true_iff.mp hexecute
  · rw [hdirectory, Bool.true_or]
  · rw [Acl.isExecutable_mono hbase (hclass ▸ le_sup_left) hexecutable, Bool.or_true]

theorem user_cleared (honly : OnlyGranted tree previous desired)
    (hprincipal : principal ∈ (previous ++ desired).map (·.principal))
    (hnone : ∀ grant ∈ desired, grant.principal = principal → grant.covers node.path = false) :
    (cleared tree previous desired updates node).access.user principal = none := by
  obtain ⟨left, hleft, -, -, hentry⟩ :=
    hprepared.list_cleared hnode (.user principal) node.list_access
  rw [Option.some.inj hleft]
  refine hentry.trans ?_
  split
  · rfl
  · next hkept =>
      refine Option.not_isSome_iff_eq_none.mp fun hsome => hkept ?_
      obtain ⟨grant, hgrant, rfl, hcovers⟩ := honly node hnode principal hprincipal hsome
      refine ⟨grant, mem_removals hnode hgrant hcovers hnone, ?_, rfl⟩
      simpa [Grant.touches] using hcovers

/-- The entry of a principal in the end is that of its deepest grant. -/
theorem user_prepared (h : lastGrant (additions desired) principal node.path = some grant) :
    ∃ execute, (addAll (additions desired)
        (cleared tree previous desired updates node)).access.user principal =
          some (grant.access.perm execute) ∧
      ((node.isDirectory || node.access.isExecutable) = true → execute = true) := by
  replace h : lastGrant (additions desired) principal
      (cleared tree previous desired updates node).path = some grant := by
    rwa [sameNode_cleared.1]
  obtain ⟨execute, hentry, hexecute⟩ := user_addAll_of_some h
  exact ⟨execute, hentry, fun hnode' => hexecute (executes_cleared hprepared hnode hnode')⟩

end AfterPrepare

theorem Access.perm_le {weak strong : Access} {execute execute' : Bool}
    (hrank : weak.rank ≤ strong.rank) (hweak : weak ≠ .traverse ∨ weak = strong)
    (hexecute : execute = true → execute' = true) :
    weak.perm execute ≤ strong.perm execute' := by
  intro bit
  cases bit <;> cases weak <;> cases strong <;>
    simp_all [Access.perm, Lib.perm, rank, Bool.le_iff_imp]

theorem Access.rank_le_of_perm_le {weak strong : Access} {execute execute' : Bool}
    (h : weak.perm execute ≤ strong.perm execute') : weak.rank ≤ strong.rank := by
  have hread := h .read
  have hwrite := h .write
  cases weak <;> cases strong <;> simp_all [Access.perm, Lib.perm, rank, Bool.le_iff_imp]

/-- At its own path a grant is the deepest one. -/
theorem lastGrant_own {inner : Grant} (hkeys : (desired.map Grant.key).Nodup)
    (hnames : "" ∉ inner.path) (hinner : inner ∈ desired) :
    lastGrant (additions desired) inner.principal inner.path = some inner := by
  have hcovers : inner.covers inner.path = true := by simp [Grant.covers]
  cases hlast : lastGrant (additions desired) inner.principal inner.path with
  | none =>
      rw [lastGrant_eq_none.mp hlast inner hinner rfl] at hcovers
      cases hcovers
  | some grant =>
      obtain ⟨⟨hgrant, hprincipal, hcovers'⟩, hdeepest⟩ := lastGrant_deepest hkeys hnames hlast
      obtain rfl | ⟨-, habove⟩ := hdeepest inner hinner rfl hcovers
      · rfl
      · have hpath : grant.path = inner.path :=
          (Grant.prefix_of_covers hcovers').eq_of_length_le habove.length_le
        refine congrArg some (List.inj_on_of_nodup_map hkeys hgrant hinner ?_)
        rw [Grant.key, Grant.key, hpath, hprincipal]

theorem prepare_exact_iff {settings : ShareSettings} {shares : List ResolvedShare}
    {previous : List Grant} {mountpoints : List Path} {before after : Tree}
    (honly : OnlyGranted before previous (grantsFor settings shares))
    (hprepare : prepare before mountpoints previous (grantsFor settings shares) = .ok after) :
    Exact before after previous (grantsFor settings shares) ↔
      NoWeakerBelow (grantsFor settings shares) := by
  have hkeys := grantsFor_keys settings shares
  obtain ⟨updates, hprepared⟩ := prepare_ok hprepare
  constructor
  · intro hexact outer houter inner hinner hprincipal htree hpre
    obtain ⟨node, hnode, hpath⟩ := List.mem_map.mp (hprepared.desired_present inner hinner)
    have hlast := lastGrant_own hkeys (hpath ▸ before.names_ne node hnode) hinner
    rw [← hpath] at hlast
    obtain ⟨execute, hentry, -⟩ := user_prepared hprepared hnode hlast
    have hcovers : outer.covers node.path = true := by
      simp [Grant.covers, htree, hpath, hpre]
    obtain ⟨entry, hentry', hle⟩ := (hexact node hnode _
      (hprepared.nodes ▸ List.mem_map_of_mem hnode)
      (sameNode_addAll.1.trans sameNode_cleared.1) inner.principal
      (List.mem_map.mpr ⟨inner, List.mem_append_right _ hinner, rfl⟩)).1 outer houter hprincipal
      hcovers
    rw [hentry] at hentry'
    cases hentry'
    exact Access.rank_le_of_perm_le hle
  · intro hweaker old hold new hnew hpath principal hprincipal
    rw [hprepared.nodes] at hnew
    obtain ⟨node, hnode, rfl⟩ := List.mem_map.mp hnew
    rw [sameNode_addAll.1, sameNode_cleared.1] at hpath
    cases List.inj_on_of_nodup_map before.paths_nodup hnode hold hpath
    refine ⟨fun grant hgrant hgp hcovers => ?_, fun hnone => ?_⟩
    · cases hlast : lastGrant (additions (grantsFor settings shares)) principal old.path with
      | none =>
          rw [lastGrant_eq_none.mp hlast grant hgrant hgp] at hcovers
          cases hcovers
      | some deepest =>
          obtain ⟨execute, hentry, hexecute⟩ := user_prepared hprepared hold hlast
          obtain ⟨⟨hmem, hdp, -⟩, hdeepest⟩ :=
            lastGrant_deepest hkeys (before.names_ne old hold) hlast
          refine ⟨_, hentry, ?_⟩
          obtain rfl | ⟨htree, habove⟩ := hdeepest grant hgrant hgp hcovers
          · exact Access.perm_le (Nat.le_refl _) (.inr rfl) hexecute
          · exact Access.perm_le
              (hweaker grant hgrant deepest hmem (hgp.trans hdp.symm) htree habove)
              (.inl (access_of_tree hgrant htree)) hexecute
    · rw [user_addAll_of_none]
      · exact user_cleared hprepared hold honly hprincipal hnone
      · rw [sameNode_cleared.1]
        exact lastGrant_eq_none.mpr hnone

/-- For the grants that shares give: the entries are exactly the grants when, and only
when, no grant asks for less than a tree grant above it. -/
theorem update_exact_iff {settings : ShareSettings} {shares : List ResolvedShare}
    {store after : Store} {mountpoints : List Path}
    (honly : OnlyGranted store.tree store.committed (grantsFor settings shares))
    (hupdate : store.update mountpoints (grantsFor settings shares) = .ok after) :
    Exact store.tree after.tree store.committed after.committed ↔
      NoWeakerBelow (grantsFor settings shares) := by
  obtain ⟨tree, hprepare, hcommit⟩ := bind_ok_iff.mp hupdate
  cases hcommit
  exact prepare_exact_iff honly hprepare

/-! ## Two shares, one below the other -/

instance (tree : Tree) (previous desired : List Grant) :
    Decidable (OnlyGranted tree previous desired) :=
  inferInstanceAs (Decidable (∀ node ∈ tree.nodes, ∀ principal ∈ _, _ → ∃ grant ∈ previous, _))

instance (desired : List Grant) : Decidable (NoWeakerBelow desired) :=
  inferInstanceAs (Decidable (∀ outer ∈ desired, ∀ inner ∈ desired, _ → _ → _ → _))

/-- A directory of mode `rwxr-x---`. -/
def plainDirectory (path : Path) : Node where
  path := path
  kind := .directory none
  access := .ofMode (perm true true true) (perm true false true) (perm false false false)

/-- The directories `/data`, `/data/a`, `/data/a/b` and `/data/a/b/c`. -/
def nestedTree : Tree where
  nodes := (List.inits ["data", "a", "b", "c"]).map plainDirectory
  links := []
  paths_nodup := by decide
  names_ne := by decide
  closed := by
    intro node hnode path hpath
    have hinits : ∀ node ∈ (List.inits ["data", "a", "b", "c"]).map plainDirectory,
        ∀ path ∈ node.path.inits, path ∈ (List.inits ["data", "a", "b", "c"]) := by decide
    simpa [plainDirectory] using hinits node hnode path ((List.mem_inits _ _).mpr hpath)

def writableShare (path : Path) : ResolvedShare where
  smb := ⟨true, false, false⟩
  ftp := ⟨false, false, false⟩
  webdav := ⟨false, false, false⟩
  dlna := ⟨false, false, false⟩
  nfs := ⟨false, false, false⟩
  absolutePath := path
  rootPath := ["data"]

theorem update_exact_single_share :
    ∃ after, Store.update ⟨nestedTree, []⟩ [] (grantsFor ⟨true, "alice"⟩
        [writableShare ["data", "a"]]) = .ok after ∧
      Exact nestedTree after.tree [] after.committed := by
  obtain ⟨after, hafter⟩ := Option.isSome_iff_exists.mp (show (Store.update ⟨nestedTree, []⟩ []
    (grantsFor ⟨true, "alice"⟩ [writableShare ["data", "a"]])).toOption.isSome = true by
      decide +kernel)
  have hupdate := toOption_eq_some_iff.mp hafter
  exact ⟨after, hupdate, (update_exact_iff (by decide +kernel) hupdate).mpr (by decide +kernel)⟩

/-- Both shares are writable for one user, and in the directory between them this user is
left with the right to pass. -/
theorem nested_share_takes_access :
    ∃ after, Store.update ⟨nestedTree, []⟩ [] (grantsFor ⟨true, "alice"⟩
        [writableShare ["data", "a"], writableShare ["data", "a", "b", "c"]]) = .ok after ∧
      OnlyGranted nestedTree [] after.committed ∧
        ¬Exact nestedTree after.tree [] after.committed := by
  obtain ⟨after, hafter⟩ := Option.isSome_iff_exists.mp (show (Store.update ⟨nestedTree, []⟩ []
    (grantsFor ⟨true, "alice"⟩
      [writableShare ["data", "a"], writableShare ["data", "a", "b", "c"]])).toOption.isSome =
        true by decide +kernel)
  have hupdate := toOption_eq_some_iff.mp hafter
  obtain ⟨tree, hprepare, hcommit⟩ := bind_ok_iff.mp hupdate
  cases hcommit
  have honly : OnlyGranted nestedTree [] (grantsFor ⟨true, "alice"⟩
      [writableShare ["data", "a"], writableShare ["data", "a", "b", "c"]]) := by decide +kernel
  exact ⟨_, hupdate, honly, mt (prepare_exact_iff honly hprepare).mp (by decide +kernel)⟩

end Zos.Hostd.ShareAcl
