import Zos.Indexer.Quiet
import Zos.Proofs.IndexNames

/-!
# A single task against the full scan

After a full scan the rows of a root are those of the files the traversal comes to, and each is
current. A task for one path then finds nothing to do, and the question is only what it removes
or records under another text: the ignore list, which the traversal applies to directories and
the task to every name of its path, and names with a backslash, whose display path may lie where
no such file is.
-/

namespace Zos.Indexer.Quiet

open Zos.Lib (ValidName joinSegments mem_of_lookup)

variable {root node : Node} {extracts : FileIdentity → Bool} {rows rows' : Rows}
  {path : String} {paths : List String} {names file : List String} {recursive : Bool}
  {entries : List (String × Node)}

/-- What a full scan of a root that is a directory has left. -/
structure Indexed (identity : FileIdentity) (entries : List (String × Node))
    (extracts : FileIdentity → Bool) where
  before : Rows
  rows : Rows
  scanned : runTask (.directory identity entries) extracts before [] true = some rows

/-- The path of a regular file or directory. -/
structure Target (root : Node) where
  names : List String
  node : Node
  valid : ∀ name ∈ names, ValidName name
  found : root.walk names = .ok node
  kind : node.kind = .file ∨ node.kind = .directory

/-- The task succeeds and leaves the paths as they are. -/
def Agrees (root : Node) (extracts : FileIdentity → Bool) (rows : Rows) (names : List String)
    (recursive : Bool) : Prop :=
  ∃ rows', runTask root extracts rows names recursive = some rows' ∧
    ∀ path, (rows' path).isSome = (rows path).isSome

/-- Nothing recorded lies where the task removes it, and a file is recorded under its own text. -/
def Target.Harmless {identity : FileIdentity} (target : Target (.directory identity entries))
    (recursive : Bool) : Prop :=
  match ignoredAncestor.go [] target.names, target.node with
  | some ignored, _ => ∀ file ∈ filesOf true entries, ¬ atOrBelow ignored (display file)
  | none, .directory _ below => recursive = true → ∀ file ∈ filesOf true entries,
      atOrBelow (pathText target.names) (display file) →
      ∃ found ∈ filesOf true below, display (target.names ++ found) = display file
  | none, _ => ∀ name ∈ target.names, '\\' ∉ name.toList

/-! ## Files -/

/-- The row of a path belongs to the file the path leads to. -/
def Current (root : Node) (rows : Rows) (path : String) : Prop :=
  ∃ identity, openFile root path = .ok identity ∧ rows path = some (some identity)

theorem processFile_of_current (h : Current root rows path) :
    processFile root extracts rows path = some rows := by
  obtain ⟨identity, hopen, hrow⟩ := h
  simp only [processFile, hopen, hrow, if_true]

theorem processFile_spec (h : processFile root extracts rows path = some rows') :
    Current root rows' path ∧ ∀ other, other ≠ path → rows' other = rows other := by
  unfold processFile at h
  cases hopen : openFile root path with
  | error => rw [hopen] at h; cases h
  | ok identity =>
      rw [hopen] at h
      dsimp only at h
      split at h
      · cases h
        exact ⟨⟨identity, hopen, ‹_›⟩, fun _ _ => rfl⟩
      · split at h
        · cases h
          exact ⟨⟨identity, hopen, if_pos rfl⟩, fun _ hother => if_neg hother⟩
        · cases h

theorem processFiles_of_current (h : ∀ path ∈ paths, Current root rows path) :
    paths.foldlM (processFile root extracts) rows = some rows := by
  induction paths with
  | nil => rfl
  | cons path paths ih =>
      rw [List.foldlM_cons, processFile_of_current (h path List.mem_cons_self)]
      exact ih fun other hother => h other (List.mem_cons_of_mem _ hother)

/-- A file that has been processed stays current; the rows of other paths stay. -/
theorem processFiles_spec (h : paths.foldlM (processFile root extracts) rows = some rows') :
    (∀ path, path ∈ paths ∨ Current root rows path → Current root rows' path) := by
  induction paths generalizing rows with
  | nil =>
      cases h
      intro path hpath
      exact hpath.resolve_left List.not_mem_nil
  | cons first paths ih =>
      obtain ⟨next, hfirst, hrest⟩ := Option.bind_eq_some_iff.mp h
      obtain ⟨hcurrent, hothers⟩ := processFile_spec hfirst
      intro path hpath
      by_cases heq : path = first
      · exact ih hrest path (.inr (heq ▸ hcurrent))
      · refine ih hrest path (hpath.imp (fun hmem => ?_) fun hkept => ?_)
        · exact (List.mem_cons.mp hmem).resolve_left heq
        · obtain ⟨identity, hopen, hrow⟩ := hkept
          exact ⟨identity, hopen, (hothers path heq).trans hrow⟩

theorem isSome_of_current (h : Current root rows path) : (rows path).isSome := by
  obtain ⟨identity, -, hrow⟩ := h
  rw [hrow]
  rfl

/-- After a full scan there is a row for every file, it is current, and there is no other. -/
theorem Indexed.spec {identity : FileIdentity} (indexed : Indexed identity entries extracts) :
    (∀ file ∈ filesOf true entries,
      Current (.directory identity entries) indexed.rows (display file)) ∧
    ∀ path, (indexed.rows path).isSome → ∃ file ∈ filesOf true entries, display file = path := by
  obtain ⟨scanned, hscanned, hrows⟩ := Option.map_eq_some_iff.mp indexed.scanned
  have hcurrent := processFiles_spec hscanned
  simp only [if_true, List.nil_append] at hrows hcurrent
  constructor
  · intro file hfile
    have hmem : display file ∈ (filesOf true entries).map display := List.mem_map_of_mem hfile
    obtain ⟨identity', hopen, hrow⟩ := hcurrent (display file) (.inl hmem)
    refine ⟨identity', hopen, ?_⟩
    rw [← hrows]
    simpa [Rows.keep, hmem] using hrow
  · intro path hpath
    rw [← hrows] at hpath
    unfold Rows.keep at hpath
    split at hpath
    case isTrue hkept =>
      have hmem : path ∈ (filesOf true entries).map display := by
        simpa [pathText, atOrBelow] using hkept
      simpa using hmem
    case isFalse => cases hpath

/-! ## Names -/

theorem mem_filesOf {name : String} (hentry : (name, node) ∈ entries)
    (h : file ∈ filesAt recursive node name) : file ∈ filesOf recursive entries := by
  induction entries with
  | nil => cases hentry
  | cons first rest ih =>
      rw [filesOf]
      obtain rfl | hrest := List.mem_cons.mp hentry
      · exact List.mem_append_left _ h
      · exact List.mem_append_right _ (ih hrest)

/-- A traversal that does not go down comes to fewer files. -/
theorem filesOf_subset : filesOf recursive entries ⊆ filesOf true entries := by
  cases recursive with
  | true => exact List.Subset.refl _
  | false =>
      induction entries with
      | nil => exact List.Subset.refl _
      | cons entry rest ih =>
          rw [filesOf, filesOf]
          refine List.append_subset.mpr ⟨?_, List.subset_append_of_subset_right _ ih⟩
          refine List.subset_append_of_subset_left _ ?_
          cases entry.2 <;> simp [filesAt]

/-- The files that a traversal comes to from a node. -/
def filesBelow : Node → List (List String)
  | .file _ => [[]]
  | .directory _ entries => filesOf true entries
  | .symlink | .other => []

theorem cons_mem_filesAt {name : String} (hignored : name ∉ ignoredDirectories)
    (h : file ∈ filesBelow node) : name :: file ∈ filesAt true node name := by
  cases node with
  | file => simpa [filesBelow, filesAt] using h
  | directory identity entries => simpa [filesBelow, filesAt, hignored] using h
  | symlink | other => cases h

/-- What the traversal of the root does below a node is what one of the node does, unless a
directory is ignored on the way. -/
theorem append_mem_filesBelow {target : Node} (hvalid : ∀ name ∈ names, ValidName name)
    (hignored : ∀ name ∈ names, name ∉ ignoredDirectories) (h : node.walk names = .ok target)
    (hfile : file ∈ filesBelow target) : names ++ file ∈ filesBelow node := by
  induction names generalizing node with
  | nil =>
      cases h
      exact hfile
  | cons name names ih =>
      cases node with
      | directory identity entries =>
          obtain ⟨child, hchild, hwalk⟩ := walk_cons (hvalid name List.mem_cons_self) h
          have hbelow := ih (fun n hn => hvalid n (List.mem_cons_of_mem _ hn))
            (fun n hn => hignored n (List.mem_cons_of_mem _ hn)) hwalk
          exact mem_filesOf hchild (cons_mem_filesAt (hignored name List.mem_cons_self) hbelow)
      | file | symlink | other => cases h

theorem mem_filesOf_of_walk {identity : FileIdentity}
    (hvalid : ∀ name ∈ names, ValidName name)
    (hignored : ∀ name ∈ names, name ∉ ignoredDirectories) {outer : FileIdentity}
    (h : (Node.directory outer entries).walk names = .ok (.file identity)) :
    names ≠ [] ∧ names ∈ filesOf true entries := by
  have hmem := append_mem_filesBelow hvalid hignored h (List.mem_singleton_self [])
  rw [List.append_nil] at hmem
  refine ⟨?_, hmem⟩
  rintro rfl
  cases h

/-! ## Tasks -/

theorem keep_agrees_iff {kept : String → Bool} :
    (∀ path, (rows.keep kept path).isSome = (rows path).isSome) ↔
      ∀ path, (rows path).isSome → kept path := by
  refine forall_congr' fun path => ?_
  unfold Rows.keep
  cases kept path <;> cases rows path <;> simp

section

variable {identity : FileIdentity} (indexed : Indexed identity entries extracts)

include indexed

theorem forall_rows_iff (p : String → Prop) :
    (∀ path, (indexed.rows path).isSome → p path) ↔
      ∀ file ∈ filesOf true entries, p (display file) := by
  obtain ⟨hcurrent, hrows⟩ := indexed.spec
  constructor
  · exact fun h file hfile => h _ (isSome_of_current (hcurrent file hfile))
  · intro h path hpath
    obtain ⟨file, hfile, rfl⟩ := hrows path hpath
    exact h file hfile

theorem agrees_ignored_iff {ignored : String} (h : ignoredAncestor.go [] names = some ignored) :
    Agrees (.directory identity entries) extracts indexed.rows names recursive ↔
      ∀ file ∈ filesOf true entries, ¬ atOrBelow ignored (display file) := by
  have hrun : runTask (.directory identity entries) extracts indexed.rows names recursive =
      some (indexed.rows.keep fun path => ¬ atOrBelow ignored path) := by
    simp only [runTask, h]
  unfold Agrees
  rw [hrun, ← forall_rows_iff indexed fun path => ¬ atOrBelow ignored path]
  simp only [Option.some.injEq, exists_eq_left', keep_agrees_iff, decide_eq_true_eq]

theorem agrees_directory_iff {inner : FileIdentity} {below : List (String × Node)}
    (hvalid : ∀ name ∈ names, ValidName name) (h : ignoredAncestor.go [] names = none)
    (hwalk : (Node.directory identity entries).walk names = .ok (.directory inner below)) :
    Agrees (.directory identity entries) extracts indexed.rows names recursive ↔
      (recursive = true → ∀ file ∈ filesOf true entries, atOrBelow (pathText names) (display file) →
        ∃ found ∈ filesOf true below, display (names ++ found) = display file) := by
  have hcurrent : ∀ path ∈ (filesOf recursive below).map fun file => display (names ++ file),
      Current (.directory identity entries) indexed.rows path := by
    intro path hpath
    obtain ⟨file, hfile, rfl⟩ := List.mem_map.mp hpath
    exact indexed.spec.1 _ (append_mem_filesBelow hvalid (ignoredAncestor_go_none h) hwalk
      (filesOf_subset hfile))
  unfold Agrees
  simp only [runTask, h, hwalk, processFiles_of_current hcurrent, Option.map_some,
    Option.some.injEq, exists_eq_left']
  cases recursive with
  | false => simp
  | true =>
      simp only [if_true, keep_agrees_iff, decide_eq_true_eq, forall_const]
      rw [forall_rows_iff indexed fun path =>
        path ∈ (filesOf true below).map (fun file => display (names ++ file)) ∨
          ¬ atOrBelow (pathText names) path]
      simp only [List.mem_map]
      exact forall₂_congr fun file _ => imp_iff_or_not.symm

theorem agrees_file_iff {inner : FileIdentity} (hvalid : ∀ name ∈ names, ValidName name)
    (h : ignoredAncestor.go [] names = none)
    (hwalk : (Node.directory identity entries).walk names = .ok (.file inner)) :
    Agrees (.directory identity entries) extracts indexed.rows names recursive ↔
      ∀ name ∈ names, '\\' ∉ name.toList := by
  obtain ⟨hne, hmem⟩ := mem_filesOf_of_walk hvalid (ignoredAncestor_go_none h) hwalk
  have htext : pathText names = joinSegments names := if_neg hne
  unfold Agrees
  simp only [runTask, h, hwalk]
  constructor
  · rintro ⟨rows', hrun, hsame⟩ name hname hbackslash
    have hrow := isSome_of_current (processFile_spec hrun).1
    rw [hsame] at hrow
    obtain ⟨file, -, hdisplay⟩ := indexed.spec.2 _ hrow
    -- No display path has a backslash, but the text of this task does.
    refine backslash_notMem_displayPath (joinSegments file) ?_
    rw [show displayPath (joinSegments file) = pathText names from hdisplay, htext,
      mem_joinSegments (by decide)]
    exact ⟨name, hname, hbackslash⟩
  · intro hnames
    have hdisplay : display names = pathText names := by
      unfold display
      rw [htext, ← pathText_of_ne_nil hne]
      exact displayPath_pathText hvalid hne hnames
    have hcurrent := indexed.spec.1 names hmem
    rw [hdisplay] at hcurrent
    exact ⟨indexed.rows, processFile_of_current hcurrent, fun _ => rfl⟩

end

/-- A task for a regular file or directory leaves what a full scan has recorded, exactly if nothing
recorded lies where it removes and the file is recorded under its own text. -/
theorem task_agrees_iff (identity : FileIdentity) (entries : List (String × Node))
    (extracts : FileIdentity → Bool) (indexed : Indexed identity entries extracts)
    (target : Target (.directory identity entries)) (recursive : Bool) :
    Agrees (.directory identity entries) extracts indexed.rows target.names recursive ↔
      target.Harmless recursive := by
  unfold Target.Harmless
  cases h : ignoredAncestor.go [] target.names with
  | some ignored => exact agrees_ignored_iff indexed h
  | none =>
      have hfound := target.found
      have hkind := target.kind
      cases hnode : target.node with
      | directory => exact agrees_directory_iff indexed target.valid h (hnode ▸ hfound)
      | file => exact agrees_file_iff indexed target.valid h (hnode ▸ hfound)
      | symlink => rw [hnode] at hkind; rcases hkind with hkind | hkind <;> cases hkind
      | other => rw [hnode] at hkind; rcases hkind with hkind | hkind <;> cases hkind

/-- A regular file that is called like a directory of the ignore list. -/
def distFile : List (String × Node) := [("dist", .file ⟨0, 1, 0, 0, 0⟩)]

theorem file_named_dist_removed :
    ∃ (indexed : Indexed ⟨0, 0, 0, 0, 0⟩ distFile fun _ => true)
      (target : Target (.directory ⟨0, 0, 0, 0, 0⟩ distFile)),
      ¬ Agrees (.directory ⟨0, 0, 0, 0, 0⟩ distFile) (fun _ => true) indexed.rows target.names
        false := by
  have hsome : (runTask (.directory ⟨0, 0, 0, 0, 0⟩ distFile) (fun _ => true) (fun _ => none) []
      true).isSome := by decide +kernel
  let indexed : Indexed ⟨0, 0, 0, 0, 0⟩ distFile fun _ => true :=
    ⟨fun _ => none, Option.get _ hsome, (Option.some_get hsome).symm⟩
  refine ⟨indexed, ⟨["dist"], .file ⟨0, 1, 0, 0, 0⟩, by decide, rfl, .inl rfl⟩, fun h => ?_⟩
  have hkept := (agrees_ignored_iff indexed (show _ = some "dist" by decide)).mp h
  exact hkept ["dist"] (by decide) (by decide)

end Zos.Indexer.Quiet
