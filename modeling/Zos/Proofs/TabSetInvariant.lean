import Zos.Lib.Keyed
import Zos.Terminals.TabSets

/-!
# Tab sets stay consistent

What the two tables owe each other is kept in two parts. `Tables` holds of the rows alone: an
ordinal that was ever given is below the counter of its set, so no counter can give it again.
`ActiveRight` says of one set that its active tab is right for the rows that are there. An insert
and a deletion break the second part halfway and mend it before they end, so both parts are shown
for whole operations. The order in which a deletion picks its replacement is read back as "next
higher, or else next lower" only because no other tab of the root has the ordinal of the one that
goes.
-/

namespace Zos.Terminals.TabSets

variable {maxSessions : Nat} {db next : Db} {tab : Tab} {set : TabSet} {rootId id : String}

structure Tables (maxSessions : Nat) (db : Db) : Prop where
  ids : (db.tabs.map (·.id)).Nodup
  keys : (db.sets.map (·.rootId)).Nodup
  distinct : (db.tabs.map Tab.place).Nodup
  recorded : ∀ tab ∈ db.tabs, tab.place ∈ db.given
  given : ∀ place ∈ db.given,
    ∃ set ∈ db.sets, set.rootId = place.1 ∧ place.2 < set.nextOrdinal
  givenOnce : db.given.Nodup
  bounded : db.tabs.length ≤ maxSessions

def ActiveRight (tabs : List Tab) (set : TabSet) : Prop :=
  match set.activeTabId with
  | none => ∀ tab ∈ tabs, tab.rootId ≠ set.rootId
  | some id => ∃ tab ∈ tabs, tab.id = id ∧ tab.rootId = set.rootId

structure Inv (maxSessions : Nat) (db : Db) : Prop extends Tables maxSessions db where
  right : ∀ set ∈ db.sets, ActiveRight db.tabs set

/-! ## Look-ups -/

theorem Tables.getTerminalTab_iff (h : Tables maxSessions db) :
    getTerminalTab db id = some tab ↔ tab ∈ db.tabs ∧ tab.id = id :=
  Lib.find?_key_iff h.ids

theorem Tables.getTerminalTabSet_iff (h : Tables maxSessions db) :
    getTerminalTabSet db rootId = some set ↔ set ∈ db.sets ∧ set.rootId = rootId :=
  Lib.find?_key_iff h.keys

theorem Tables.below (h : Tables maxSessions db) (hset : set ∈ db.sets) (htab : tab ∈ db.tabs)
    (hroot : tab.rootId = set.rootId) : tab.ordinal < set.nextOrdinal := by
  obtain ⟨owner, howner, hkey, hlt⟩ := h.given _ (h.recorded tab htab)
  have : owner = set := List.inj_on_of_nodup_map h.keys howner hset (hkey.trans hroot)
  rw [← this]
  exact hlt

/-! ## Updates of the sets -/

section Update

variable {change : TabSet → TabSet}

theorem mem_updateSets {updated : TabSet} :
    updated ∈ (updateSets db rootId change).sets ↔
      ∃ set ∈ db.sets, (if set.rootId = rootId then change set else set) = updated :=
  List.mem_map

theorem updateSets_keys (hroot : ∀ set, (change set).rootId = set.rootId) :
    (updateSets db rootId change).sets.map (·.rootId) = db.sets.map (·.rootId) := by
  simp only [updateSets, List.map_map]
  apply List.map_congr_left
  intro set _
  show (if set.rootId = rootId then change set else set).rootId = set.rootId
  split
  · exact hroot set
  · rfl

theorem setActive_eq {active : Option String} (h : setActive db rootId active change = some next) :
    next = updateSets db rootId fun set => { change set with activeTabId := active } := by
  simp only [setActive] at h
  split at h
  · cases h
  · exact (Option.some.inj h).symm

/-- Only the active tab changes. -/
theorem Tables.activate (h : Tables maxSessions db) (active : Option String) :
    Tables maxSessions (updateSets db rootId fun set => { set with activeTabId := active }) where
  ids := h.ids
  keys := by rw [updateSets_keys (by intro set; rfl)]; exact h.keys
  distinct := h.distinct
  recorded := h.recorded
  given := by
    intro place hplace
    obtain ⟨set, hset, hkey, hlt⟩ := h.given place hplace
    refine ⟨_, mem_updateSets.mpr ⟨set, hset, rfl⟩, ?_, ?_⟩
    · split <;> exact hkey
    · split <;> exact hlt
  givenOnce := h.givenOnce
  bounded := h.bounded

end Update

/-! ## Each operation -/

theorem Inv.createTerminalTabSet (h : Inv maxSessions db)
    (hcreate : createTerminalTabSet db rootId = some next) : Inv maxSessions next := by
  simp only [TabSets.createTerminalTabSet] at hcreate
  split at hcreate
  · cases hcreate
  · next hnew =>
      cases hcreate
      have hkey : ∀ set ∈ db.sets, set.rootId ≠ rootId := by
        intro set hset heq
        exact hnew (.inl (List.mem_map.mpr ⟨set, hset, heq⟩))
      refine ⟨⟨h.ids, Lib.nodup_map_concat.mpr ⟨h.keys, hkey⟩, h.distinct, h.recorded, ?_,
        h.givenOnce, h.bounded⟩, ?_⟩
      · intro place hplace
        obtain ⟨set, hset, hfacts⟩ := h.given place hplace
        exact ⟨set, List.mem_append_left _ hset, hfacts⟩
      · intro set hset
        rcases List.mem_append.mp hset with hset | hset
        · exact h.right set hset
        · -- A root without a set never had a tab.
          cases List.mem_singleton.mp hset
          intro tab htab heq
          obtain ⟨owner, howner, hroot, _⟩ := h.given _ (h.recorded tab htab)
          exact hkey owner howner (hroot.trans heq)

/-- The rows after an insert, with the set's counter one further. -/
def inserted (db : Db) (tab : Tab) : Db :=
  updateSets { db with tabs := db.tabs ++ [tab], given := db.given ++ [tab.place] } tab.rootId
    fun set => { set with activeTabId := some tab.id, nextOrdinal := tab.ordinal + 1 }

theorem Tables.inserted (h : Tables maxSessions db) (hset : set ∈ db.sets)
    (hroot : set.rootId = tab.rootId) (hordinal : tab.ordinal = set.nextOrdinal)
    (hid : tab.id ∉ db.tabs.map (·.id)) (hplace : tab.place ∉ db.tabs.map Tab.place)
    (hroom : db.tabs.length < maxSessions) : Tables maxSessions (inserted db tab) where
  ids := by
    refine Lib.nodup_map_concat.mpr ⟨h.ids, ?_⟩
    intro old hold heq
    exact hid (List.mem_map.mpr ⟨old, hold, heq⟩)
  keys := by
    show ((updateSets _ _ _).sets.map _).Nodup
    rw [updateSets_keys (by intro set; rfl)]
    exact h.keys
  distinct := by
    refine Lib.nodup_map_concat.mpr ⟨h.distinct, ?_⟩
    intro old hold heq
    exact hplace (List.mem_map.mpr ⟨old, hold, heq⟩)
  recorded := by
    intro other hother
    rcases List.mem_append.mp hother with hother | hother
    · exact List.mem_append_left _ (h.recorded other hother)
    · cases List.mem_singleton.mp hother
      exact List.mem_append_right _ (List.mem_singleton.mpr rfl)
  given := by
    intro place hmem
    rcases List.mem_append.mp hmem with hmem | hmem
    · obtain ⟨owner, howner, hkey, hlt⟩ := h.given place hmem
      refine ⟨_, mem_updateSets.mpr ⟨owner, howner, rfl⟩, ?_, ?_⟩
      · split <;> exact hkey
      · split
        · next heq =>
            have : owner = set := List.inj_on_of_nodup_map h.keys howner hset (heq.trans hroot.symm)
            subst this
            show place.2 < tab.ordinal + 1
            omega
        · exact hlt
    · cases List.mem_singleton.mp hmem
      refine ⟨_, mem_updateSets.mpr ⟨set, hset, rfl⟩, ?_, ?_⟩
      · rw [if_pos hroot]; exact hroot
      · rw [if_pos hroot]; exact Nat.lt_succ_self _
  givenOnce := by
    show (db.given ++ [tab.place]).Nodup
    refine List.nodup_append.mpr ⟨h.givenOnce, by simp, ?_⟩
    intro place hmem last hlast heq
    cases List.mem_singleton.mp hlast
    subst heq
    obtain ⟨owner, howner, hkey, hlt⟩ := h.given _ hmem
    have : owner = set := List.inj_on_of_nodup_map h.keys howner hset (hkey.trans hroot.symm)
    subst this
    have : tab.ordinal < owner.nextOrdinal := hlt
    omega
  bounded := by
    show (db.tabs ++ [tab]).length ≤ maxSessions
    simp only [List.length_append, List.length_singleton]
    omega

theorem ActiveRight.inserted (h : ∀ set ∈ db.sets, ActiveRight db.tabs set) :
    ∀ set ∈ (inserted db tab).sets, ActiveRight (inserted db tab).tabs set := by
  intro updated hupdated
  obtain ⟨set, hset, rfl⟩ := mem_updateSets.mp hupdated
  split
  · next heq =>
      exact ⟨tab, List.mem_append_right _ (List.mem_singleton.mpr rfl), rfl, heq.symm⟩
  · next hne =>
      have hright := h set hset
      unfold ActiveRight at hright ⊢
      cases hactive : set.activeTabId with
      | none =>
          rw [hactive] at hright
          intro other hother
          rcases List.mem_append.mp hother with hother | hother
          · exact hright other hother
          · cases List.mem_singleton.mp hother
            exact Ne.symm hne
      | some id =>
          rw [hactive] at hright
          obtain ⟨other, hother, hfacts⟩ := hright
          exact ⟨other, List.mem_append_left _ hother, hfacts⟩

theorem Inv.insertTerminalTab {requested : Option String} {random : String}
    (h : Inv maxSessions db)
    (hinsert : insertTerminalTab db rootId maxSessions requested random = some next) :
    Inv maxSessions next := by
  simp only [TabSets.insertTerminalTab, ge_iff_le] at hinsert
  split at hinsert
  · cases hinsert
  · next hroom =>
      obtain ⟨set, hset, hinsert⟩ := Option.bind_eq_some_iff.mp hinsert
      obtain ⟨row, hrow, hinsert⟩ := Option.bind_eq_some_iff.mp hinsert
      obtain ⟨hmem, hroot⟩ := h.toTables.getTerminalTabSet_iff.mp hset
      simp only [insertRow] at hrow
      split at hrow
      · cases hrow
      · next hnew =>
          cases hrow
          rw [setActive_eq hinsert]
          exact ⟨h.toTables.inserted hmem hroot rfl (fun hid => hnew (.inl hid))
            (fun hplace => hnew (.inr (.inl hplace))) (Nat.lt_of_not_le hroom),
            ActiveRight.inserted h.right⟩

theorem Inv.initializeTerminalTabs {legacy : Option String} {random : String}
    (h : Inv maxSessions db)
    (hcall : initializeTerminalTabs db rootId maxSessions legacy random = some next) :
    Inv maxSessions next := by
  simp only [TabSets.initializeTerminalTabs] at hcall
  split at hcall
  · obtain ⟨created, hcreated, hcall⟩ := Option.bind_eq_some_iff.mp hcall
    exact (h.createTerminalTabSet hcreated).insertTerminalTab hcall
  · cases hcall
    exact h
  · split at hcall
    · split at hcall
      · cases hcall
      · cases hcall
        exact h
    · exact h.insertTerminalTab hcall

theorem Inv.createTerminalTab {random : String} (h : Inv maxSessions db)
    (hcall : createTerminalTab db rootId maxSessions random = some next) :
    Inv maxSessions next := by
  obtain ⟨created, hcreated, hcall⟩ := Option.bind_eq_some_iff.mp hcall
  split at hcreated
  · cases hcreated
    exact h.insertTerminalTab hcall
  · exact (h.createTerminalTabSet hcreated).insertTerminalTab hcall

theorem Inv.activateTerminalTab (h : Inv maxSessions db)
    (hcall : activateTerminalTab db id = some next) : Inv maxSessions next := by
  obtain ⟨tab, htab, hcall⟩ := Option.bind_eq_some_iff.mp hcall
  rw [setActive_eq hcall]
  refine ⟨h.toTables.activate _, ?_⟩
  intro updated hupdated
  obtain ⟨set, hset, rfl⟩ := mem_updateSets.mp hupdated
  split
  · next heq => exact ⟨tab, (h.toTables.getTerminalTab_iff.mp htab).1, rfl, heq.symm⟩
  · exact h.right set hset

/-- A title is no part of what the tables owe each other. -/
theorem Inv.retitle (h : Inv maxSessions db) {title : Tab → Option String} :
    Inv maxSessions
      { db with tabs := db.tabs.map fun tab => { tab with customTitle := title tab } } where
  ids := by
    show ((db.tabs.map _).map _).Nodup
    rw [List.map_map]
    exact h.ids
  keys := h.keys
  distinct := by
    show ((db.tabs.map _).map _).Nodup
    rw [List.map_map]
    exact h.distinct
  recorded := by
    intro tab htab
    obtain ⟨old, hold, rfl⟩ := List.mem_map.mp htab
    exact h.recorded old hold
  given := h.given
  givenOnce := h.givenOnce
  bounded := by
    show (db.tabs.map _).length ≤ maxSessions
    rw [List.length_map]
    exact h.bounded
  right := by
    intro set hset
    have hright := h.right set hset
    unfold ActiveRight at hright ⊢
    cases hactive : set.activeTabId with
    | none =>
        rw [hactive] at hright
        intro tab htab
        obtain ⟨old, hold, rfl⟩ := List.mem_map.mp htab
        exact hright old hold
    | some id =>
        rw [hactive] at hright
        obtain ⟨old, hold, hfacts⟩ := hright
        exact ⟨_, List.mem_map.mpr ⟨old, hold, rfl⟩, hfacts⟩

theorem Inv.renameTerminalTab {title : Option String} (h : Inv maxSessions db)
    (hcall : renameTerminalTab db id title = some next) : Inv maxSessions next := by
  obtain ⟨tab, _, hcall⟩ := Option.bind_eq_some_iff.mp hcall
  split at hcall
  · cases hcall
  · cases hcall
    have hsame : (db.tabs.map fun other =>
        if other.id = tab.id then { other with customTitle := title } else other) =
        db.tabs.map fun other => { other with
          customTitle := if other.id = tab.id then title else other.customTitle } := by
      apply List.map_congr_left
      intro other _
      split <;> rfl
    rw [hsame]
    exact h.retitle

/-! ## Deletion -/

theorem mem_candidates {other : Tab} :
    other ∈ db.tabs.filter (fun other => other.rootId = tab.rootId && other.id ≠ tab.id) ↔
      other ∈ db.tabs ∧ other.rootId = tab.rootId ∧ other.id ≠ tab.id := by
  simp [List.mem_filter]

theorem replacement_mem {new : Tab} (h : replacement db tab = some new) :
    new ∈ db.tabs ∧ new.rootId = tab.rootId ∧ new.id ≠ tab.id :=
  mem_candidates.mp (List.mem_mergeSort.mp (List.mem_of_head? h))

theorem replacement_none (h : replacement db tab = none) :
    ∀ other ∈ db.tabs, other.rootId = tab.rootId → other.id = tab.id := by
  have hnil : db.tabs.filter
      (fun other => other.rootId = tab.rootId && other.id ≠ tab.id) = [] := by
    have hlength := (List.mergeSort_perm (db.tabs.filter fun other =>
      other.rootId = tab.rootId && other.id ≠ tab.id) (replacementOrder tab.ordinal)).length_eq
    rw [List.head?_eq_none_iff.mp h] at hlength
    exact List.eq_nil_of_length_eq_zero hlength.symm
  intro other hother hroot
  by_contra hne
  have hmem := mem_candidates.mpr ⟨hother, hroot, hne⟩
  rw [hnil] at hmem
  cases hmem

theorem replacementOrder_trans (ordinal : Nat) (a b c : Tab) :
    replacementOrder ordinal a b → replacementOrder ordinal b c → replacementOrder ordinal a c := by
  simp only [replacementOrder]
  grind

theorem replacementOrder_total (ordinal : Nat) (a b : Tab) :
    replacementOrder ordinal a b || replacementOrder ordinal b a := by
  simp only [replacementOrder]
  grind

theorem replacement_first {new other : Tab} (h : replacement db tab = some new)
    (hother : other ∈ db.tabs) (hroot : other.rootId = tab.rootId) (hne : other.id ≠ tab.id) :
    replacementOrder tab.ordinal new other := by
  have hsorted := List.pairwise_mergeSort (replacementOrder_trans tab.ordinal)
    (replacementOrder_total tab.ordinal)
    (db.tabs.filter fun other => other.rootId = tab.rootId && other.id ≠ tab.id)
  have hmem : other ∈ (db.tabs.filter fun other =>
      other.rootId = tab.rootId && other.id ≠ tab.id).mergeSort (replacementOrder tab.ordinal) :=
    List.mem_mergeSort.mpr (mem_candidates.mpr ⟨hother, hroot, hne⟩)
  obtain ⟨rest, hrest⟩ := List.head?_eq_some_iff.mp h
  rw [hrest] at hsorted hmem
  rcases List.mem_cons.mp hmem with rfl | hmem
  · simp [replacementOrder]
  · exact List.rel_of_pairwise_cons hsorted hmem

theorem Tables.succeeds (h : Tables maxSessions db) (htab : tab ∈ db.tabs) :
    db.Succeeds tab ((replacement db tab).map (·.id)) := by
  cases hnew : replacement db tab with
  | none =>
      intro other hother hroot
      exact List.inj_on_of_nodup_map h.ids hother htab (replacement_none hnew other hother hroot)
  | some new =>
      obtain ⟨hmem, hroot, hne⟩ := replacement_mem hnew
      have hordinals : ∀ other ∈ db.tabs, other.rootId = tab.rootId → other.id ≠ tab.id →
          other.ordinal ≠ tab.ordinal := by
        intro other hother hroot hne heq
        have hplace : other.place = tab.place := Prod.ext hroot heq
        exact hne (congrArg Tab.id (List.inj_on_of_nodup_map h.distinct hother htab hplace))
      have horder : ∀ other ∈ db.tabs, other.rootId = tab.rootId → other.ordinal ≠ tab.ordinal →
          replacementOrder tab.ordinal new other := by
        intro other hother hroot hne
        refine replacement_first hnew hother hroot ?_
        intro heq
        exact hne (congrArg Tab.ordinal (List.inj_on_of_nodup_map h.ids hother htab heq))
      refine ⟨new, hmem, rfl, hroot, ?_⟩
      simp only [replacementOrder] at horder
      rcases Nat.lt_or_gt_of_ne (hordinals new hmem hroot hne) with hlow | hhigh
      · refine .inr ⟨hlow, ?_, ?_⟩
        · intro other hother hroot
          have := horder other hother hroot
          grind
        · intro other hother hroot hlt
          have := horder other hother hroot
          grind
      · refine .inl ⟨hhigh, ?_⟩
        intro other hother hroot hlt
        have := horder other hother hroot
        grind

theorem Tables.deleteRow (h : Tables maxSessions db) : Tables maxSessions (deleteRow db id) where
  ids := h.ids.sublist (List.filter_sublist.map _)
  keys := h.keys
  distinct := h.distinct.sublist (List.filter_sublist.map _)
  recorded := by
    intro tab htab
    exact h.recorded tab (List.mem_of_mem_filter htab)
  given := h.given
  givenOnce := h.givenOnce
  bounded := Nat.le_trans (List.length_filter_le _ _) h.bounded

theorem mem_deleteRow : tab ∈ (deleteRow db id).tabs ↔ tab ∈ db.tabs ∧ tab.id ≠ id := by
  simp [deleteRow]

/-- The set of the active tab gets the replacement. -/
theorem replaced_right (hroot : set.rootId = tab.rootId) :
    ActiveRight (deleteRow db tab.id).tabs
      { set with activeTabId := (replacement db tab).map (·.id) } := by
  cases hnew : replacement db tab with
  | none =>
      intro other hother heq
      obtain ⟨hother, hne⟩ := mem_deleteRow.mp hother
      exact hne (replacement_none hnew other hother (heq.trans hroot))
  | some new =>
      obtain ⟨hmem, hsame, hne⟩ := replacement_mem hnew
      exact ⟨new, mem_deleteRow.mpr ⟨hmem, hne⟩, rfl, hsame.trans hroot.symm⟩

/-- A set whose active tab stays is right for the rows that stay. -/
theorem ActiveRight.deleteRow (h : ActiveRight db.tabs set) (hactive : set.activeTabId ≠ some id) :
    ActiveRight (deleteRow db id).tabs set := by
  unfold ActiveRight at h ⊢
  cases hcurrent : set.activeTabId with
  | none =>
      rw [hcurrent] at h
      intro tab htab
      exact h tab (mem_deleteRow.mp htab).1
  | some current =>
      rw [hcurrent] at h hactive
      obtain ⟨tab, htab, rfl, hroot⟩ := h
      exact ⟨tab, mem_deleteRow.mpr ⟨htab, fun heq => hactive (congrArg some heq)⟩, rfl, hroot⟩

theorem Inv.deleteTerminalTab (h : Inv maxSessions db)
    (hcall : deleteTerminalTab db id = some next) : Inv maxSessions next := by
  obtain ⟨tab, htab, hcall⟩ := Option.bind_eq_some_iff.mp hcall
  have hmem := (h.toTables.getTerminalTab_iff.mp htab).1
  obtain ⟨updated, hupdated, rfl⟩ := Option.map_eq_some_iff.mp hcall
  split at hupdated
  · rw [setActive_eq hupdated]
    refine ⟨(h.toTables.activate _).deleteRow, ?_⟩
    intro updated hupdated
    obtain ⟨set, hset, rfl⟩ := mem_updateSets.mp hupdated
    split
    · next hroot => exact replaced_right hroot
    · next hroot =>
        refine (h.right set hset).deleteRow ?_
        intro hactive
        have hright := h.right set hset
        simp only [ActiveRight, hactive] at hright
        obtain ⟨other, hother, hid, hsame⟩ := hright
        rw [List.inj_on_of_nodup_map h.ids hother hmem hid] at hsame
        exact hroot hsame.symm
  · next hother =>
      cases hupdated
      refine ⟨h.toTables.deleteRow, ?_⟩
      intro set hset
      refine (h.right set hset).deleteRow ?_
      intro hactive
      have hright := h.right set hset
      simp only [ActiveRight, hactive] at hright
      obtain ⟨other, hmem', hid, hsame⟩ := hright
      rw [List.inj_on_of_nodup_map h.ids hmem' hmem hid] at hsame
      simp [h.toTables.getTerminalTabSet_iff.mpr ⟨hset, hsame.symm⟩, hactive] at hother

/-! ## Whole histories -/

theorem Inv.call (h : Inv maxSessions db) (action : Call) :
    Inv maxSessions (call maxSessions db action) := by
  rw [TabSets.call]
  cases hcall : attempt maxSessions db action with
  | none => exact h
  | some next =>
      show Inv maxSessions next
      cases action with
      | initializeTabs rootId legacy random => exact h.initializeTerminalTabs hcall
      | create rootId random => exact h.createTerminalTab hcall
      | activate id => exact h.activateTerminalTab hcall
      | rename id title => exact h.renameTerminalTab hcall
      | delete id => exact h.deleteTerminalTab hcall

theorem run_inv (nasRoots : List String) (calls : List Call) :
    Inv maxSessions (run maxSessions nasRoots calls) := by
  have hstart : Inv maxSessions ⟨nasRoots, [], [], []⟩ := by
    refine ⟨⟨?_, ?_, ?_, ?_, ?_, ?_, Nat.zero_le _⟩, ?_⟩ <;> simp
  unfold run
  generalize (⟨nasRoots, [], [], []⟩ : Db) = db at hstart ⊢
  induction calls generalizing db with
  | nil => exact hstart
  | cons action calls ih => exact ih _ (hstart.call action)

theorem Inv.succession (h : Inv maxSessions db) (htab : tab ∈ db.tabs) (hset : set ∈ db.sets)
    (hroot : set.rootId = tab.rootId) (hactive : set.activeTabId = some tab.id) :
    attempt maxSessions db (.delete tab.id) = some (deleteRow (updateSets db tab.rootId fun set =>
      { set with activeTabId := (replacement db tab).map (·.id) }) tab.id) := by
  have hpasses : setActive db tab.rootId ((replacement db tab).map (·.id)) (fun set => set) =
      some (updateSets db tab.rootId fun set =>
        { set with activeTabId := (replacement db tab).map (·.id) }) := by
    refine if_neg ?_
    rintro ⟨_, hrefused⟩
    cases hnew : replacement db tab with
    | none => simp [hnew] at hrefused
    | some new =>
        obtain ⟨hmem, hsame, _⟩ := replacement_mem hnew
        simp only [hnew, Option.map_some, Option.any_some, Bool.not_eq_true',
          List.any_eq_false] at hrefused
        exact hrefused new hmem (by simp [hsame])
  show TabSets.deleteTerminalTab db tab.id = _
  have htabFound := h.toTables.getTerminalTab_iff.mpr ⟨htab, rfl⟩
  have hsetFound := h.toTables.getTerminalTabSet_iff.mpr ⟨hset, hroot⟩
  simp [TabSets.deleteTerminalTab, htabFound, hsetFound, hactive, hpasses]

/-- Every history, whatever calls fail in it, leaves consistent tab sets. -/
theorem tab_sets_stay_consistent (maxSessions : Nat) (nasRoots : List String)
    (calls : List Call) : Consistent maxSessions (run maxSessions nasRoots calls) := by
  have h : Inv maxSessions (run maxSessions nasRoots calls) := run_inv nasRoots calls
  generalize run maxSessions nasRoots calls = db at h ⊢
  refine ⟨?_, ?_, h.distinct, fun set hset tab htab => h.toTables.below hset htab, h.givenOnce,
    h.bounded, ?_⟩
  · intro set hset
    have hright := h.right set hset
    unfold ActiveRight at hright
    cases hactive : set.activeTabId with
    | none =>
        rw [hactive] at hright
        exact ⟨fun _ => hright, fun _ => rfl⟩
    | some id =>
        rw [hactive] at hright
        obtain ⟨tab, htab, _, hroot⟩ := hright
        refine ⟨nofun, ?_⟩
        intro hempty
        exact absurd hroot (hempty tab htab)
  · intro set hset id hactive
    have hright := h.right set hset
    simpa only [ActiveRight, hactive] using hright
  · intro tab htab set hset hroot hactive
    rw [call, h.succession htab hset hroot hactive]
    refine ⟨{ set with activeTabId := (replacement db tab).map (·.id) },
      mem_updateSets.mpr ⟨set, hset, if_pos hroot⟩, hroot, h.toTables.succeeds htab, ?_⟩
    intro hmem
    exact (mem_deleteRow.mp hmem).2 rfl

end Zos.Terminals.TabSets
