import Zos.Proofs.IndexPaths

/-!
# Index paths and the files they name

The scanner and the watcher turn the path of a file into a text in which a backslash has become a
slash, and every access splits such a text at its slashes. A name with a backslash does not come
back: its text names another file, the same as another file's text, or nothing, and then the scan
fails on it. These are the only such names.
-/

namespace Zos.Indexer

open Zos.Lib

/-- `normalize_path` of `watcher.rs`. -/
def normalizePath (path : String) : String := displayPath path

/-- The path of an entry in a scan of the root, which joins one name after another. -/
def scanPath (names : List String) : String := names.foldl joinPath "."

/-- A regular file below the root that a scan comes to. -/
def FileAt (tree : Tree) (names : List String) (identity : FileIdentity) : Prop :=
  names ≠ [] ∧ tree.root.Descends names (.file identity)

/-- A text leads back to the file it was made for. -/
def LeadsTo (tree : Tree) (path : String) (names : List String) (identity : FileIdentity) : Prop :=
  normalComponents path = names ∧ openFile tree.root path = .ok identity

structure PathsNameFiles (tree : Tree) : Prop where
  distinct : ∀ names names' identity identity', FileAt tree names identity →
    FileAt tree names' identity' →
    displayPath (scanPath names) = displayPath (scanPath names') → names = names'
  recorded : ∀ names identity, FileAt tree names identity →
    LeadsTo tree (displayPath (scanPath names)) names identity
  watched : ∀ names identity, FileAt tree names identity →
    LeadsTo tree (normalizePath (pathText names)) names identity

variable {names : List String} {tree : Tree} {identity : FileIdentity}

theorem scanPath_eq (hv : ∀ n ∈ names, ValidName n) : scanPath names = pathText names := by
  induction names using List.reverseRecOn with
  | nil => rfl
  | append_singleton names name ih =>
      rw [List.forall_mem_append, List.forall_mem_singleton] at hv
      rw [scanPath, List.foldl_append, List.foldl_cons, List.foldl_nil]
      rw [← joinPath_pathText hv.1 hv.2, ← ih hv.1, scanPath]

/-- Apart from slashes, a joined path has the characters of its names. -/
theorem mem_joinSegments {c : Char} (hc : c ≠ '/') :
    c ∈ (joinSegments names).toList ↔ ∃ n ∈ names, c ∈ n.toList := by
  rw [joinSegments, String.toList_ofList]
  induction names with
  | nil => simp
  | cons name rest ih =>
      cases rest with
      | nil => simp
      | cons next rest =>
          rw [List.map_cons, List.map_cons, List.intercalate_cons_cons, ← List.map_cons,
            List.mem_append, List.mem_append, ih, List.exists_mem_cons_iff]
          simp [hc]

theorem backslash_notMem_displayPath (path : String) : '\\' ∉ (displayPath path).toList := by
  by_cases hne : path = ""
  · rw [hne]
    decide
  · rw [displayPath_toList hne, List.mem_map]
    rintro ⟨c, -, hc⟩
    unfold slash at hc
    split at hc <;> simp_all

/-- What a display path leads to has no backslash in its names. -/
theorem backslash_notMem_normalComponents {path : String} :
    ∀ n ∈ normalComponents (displayPath path), '\\' ∉ n.toList := by
  intro n hn hbackslash
  rw [normalComponents] at hn
  refine backslash_notMem_displayPath path ?_
  rw [← joinSegments_segments (displayPath path), mem_joinSegments (by decide)]
  exact ⟨n, List.mem_of_mem_filter hn, hbackslash⟩

theorem displayPath_pathText (hv : ∀ n ∈ names, ValidName n) (hne : names ≠ [])
    (h : ∀ n ∈ names, '\\' ∉ n.toList) : displayPath (pathText names) = pathText names := by
  have hkept : '\\' ∉ (pathText names).toList := by
    rw [pathText_of_ne_nil hne, mem_joinSegments (by decide)]
    exact fun ⟨n, hn, hbackslash⟩ => h n hn hbackslash
  rw [← String.toList_inj, displayPath_toList (pathText_ne_empty hv)]
  conv_rhs => rw [← List.map_id (pathText names).toList]
  refine List.map_congr_left fun c hc => if_neg ?_
  rintro rfl
  exact hkept hc

theorem kind_of_descends {root node : Node} (h : root.Descends names node) (hne : names ≠ []) :
    root.kind = .directory := by
  cases h with
  | refl => exact absurd rfl hne
  | step => rfl

theorem FileAt.leadsTo (hfile : FileAt tree names identity)
    (h : ∀ n ∈ names, '\\' ∉ n.toList) :
    LeadsTo tree (displayPath (pathText names)) names identity := by
  obtain ⟨hne, hdown⟩ := hfile
  have hv := (hdown.valid tree.valid).2
  rw [displayPath_pathText hv hne h]
  exact ⟨normalComponents_pathText hv,
    (openFile_pathText (kind_of_descends hdown hne) hv).mpr (hdown.walk_nil tree.valid)⟩

/-- The paths name their files exactly if no file that is scanned has a backslash on its path. -/
theorem paths_name_files_iff (tree : Tree) : PathsNameFiles tree ↔
    ∀ names identity, FileAt tree names identity → ∀ n ∈ names, '\\' ∉ n.toList := by
  constructor
  · intro h names identity hfile
    rw [← (h.recorded names identity hfile).1]
    exact backslash_notMem_normalComponents
  · intro h
    have hrecorded : ∀ names identity, FileAt tree names identity →
        LeadsTo tree (displayPath (scanPath names)) names identity := by
      intro names identity hfile
      rw [scanPath_eq (hfile.2.valid tree.valid).2]
      exact hfile.leadsTo (h names identity hfile)
    refine ⟨?_, hrecorded, fun names identity hfile => hfile.leadsTo (h names identity hfile)⟩
    intro names names' identity identity' hfile hfile' hsame
    rw [← (hrecorded names identity hfile).1, hsame, (hrecorded names' identity' hfile').1]

/-- The one file of the root has a backslash in its name, and its path leads to another place. -/
theorem backslash_names_nothing : ∃ tree, ¬ PathsNameFiles tree := by
  have hvalid : (Node.directory ⟨1, 2, 0, 0, 0⟩ [("a\\b", .file ⟨1, 7, 3, 0, 0⟩)]).Valid := by
    refine .directory _ _ (by simp) ?_ ?_ <;> rw [List.forall_mem_singleton]
    · decide
    · exact .file _
  refine ⟨⟨_, hvalid⟩, fun h => ?_⟩
  have hfile : FileAt ⟨_, hvalid⟩ ["a\\b"] ⟨1, 7, 3, 0, 0⟩ :=
    ⟨by simp, .step List.mem_cons_self nofun (.refl _)⟩
  have hkept : ∀ n ∈ ["a\\b"], '\\' ∉ n.toList := by
    rw [← (h.recorded _ _ hfile).1]
    exact backslash_notMem_normalComponents
  exact hkept _ List.mem_cons_self (by decide)

end Zos.Indexer
