import Zos.Indexer.Storage
import Zos.Lib.Fallible
import Zos.Lib.Keyed

/-!
# Where the paths of a scan lead

A normalized path is `.` or names between slashes. Walking along its text is
walking along its names, so that what `Descends` says about names is what the
accesses of a scan answer.
-/

namespace Zos.Indexer

open Zos.Lib

/-! ## Normalized paths -/

theorem pathText_of_ne_nil {names : List String} (hne : names ≠ []) :
    pathText names = joinSegments names := if_neg hne

section

variable {names : List String} {name : String}

theorem segments_pathText (hne : names ≠ []) (hv : ∀ n ∈ names, ValidName n) :
    segments (pathText names) = names := by
  rw [pathText_of_ne_nil hne, segments_joinSegments hne fun n hn => (hv n hn).2.2.2]

theorem pathText_append {more : List String} (hne : names ≠ []) (hmore : more ≠ [])
    (hv : ∀ n ∈ names ++ more, ValidName n) :
    pathText (names ++ more) = pathText names ++ "/" ++ pathText more := by
  refine segments_injective ?_
  have hleft (n : String) (hn : n ∈ names) : ValidName n := hv n (List.mem_append_left _ hn)
  have hright (n : String) (hn : n ∈ more) : ValidName n := hv n (List.mem_append_right _ hn)
  rw [segments_append_slash, segments_pathText (by simp [hne]) hv, segments_pathText hne hleft,
    segments_pathText hmore hright]

theorem isCurDir_pathText (hv : ∀ n ∈ names, ValidName n) :
    isCurDir (pathText names) = true ↔ names = [] := by
  constructor
  · intro h
    by_contra hne
    obtain ⟨n, rest, rfl⟩ := List.exists_cons_of_ne_nil hne
    simp only [isCurDir, segments_pathText hne hv, List.head?_cons, decide_eq_true_eq] at h
    exact (hv n List.mem_cons_self).2.1 (Option.some.inj h.1)
  · rintro rfl
    decide

theorem empty_mem_segments {path : String} (h : path.toList.getLast? = some '/') :
    "" ∈ segments path := by
  obtain ⟨front, hfront⟩ := List.getLast?_eq_some_iff.mp h
  have hpath : path = String.ofList front ++ "/" ++ "" := by
    rw [← String.toList_inj, hfront]
    simp [String.toList_append]
  rw [hpath, segments_append_slash]
  exact List.mem_append_right _ (by decide)

/-- Joining a name is adding a name. -/
theorem joinPath_pathText (hv : ∀ n ∈ names, ValidName n) (hname : ValidName name) :
    joinPath (pathText names) name = pathText (names ++ [name]) := by
  have hone : pathText [name] = name := by
    refine segments_injective ?_
    rw [segments_pathText (by simp) (by simpa using hname), segments_of_notMem hname.2.2.2]
  unfold joinPath
  by_cases hne : names = []
  · rw [if_pos ((isCurDir_pathText hv).mpr hne), hne, List.nil_append, hone]
  · rw [if_neg fun h => hne ((isCurDir_pathText hv).mp h), if_neg, pathText_append hne (by simp),
      hone]
    · intro n hn
      rcases List.mem_append.mp hn with hn | hn
      · exact hv n hn
      · rw [List.mem_singleton.mp hn]
        exact hname
    · intro hslash
      have hempty := empty_mem_segments hslash
      rw [segments_pathText hne hv] at hempty
      exact (hv "" hempty).1 rfl

theorem head_segments_of_slash {path : String} (h : path.toList.head? = some '/') :
    "" ∈ segments path := by
  obtain ⟨rest, hrest⟩ : ∃ rest, path.toList = '/' :: rest := by
    cases hpath : path.toList with
    | nil => rw [hpath] at h; cases h
    | cons c rest =>
        rw [hpath] at h
        cases h
        exact ⟨rest, rfl⟩
  have hpath : path = "" ++ "/" ++ String.ofList rest := by
    rw [← String.toList_inj, hrest]
    simp [String.toList_append]
  rw [hpath, segments_append_slash]
  exact List.mem_append_left _ (by decide)

theorem validateRelativePath_pathText (hv : ∀ n ∈ names, ValidName n) :
    validateRelativePath (pathText names) = .ok () := by
  by_cases hne : names = []
  · rw [hne]
    decide
  · have hsegments := segments_pathText hne hv
    have hempty : "" ∉ segments (pathText names) := by
      rw [hsegments]
      exact fun h => (hv "" h).1 rfl
    have hdots : ".." ∉ segments (pathText names) := by
      rw [hsegments]
      exact fun h => (hv ".." h).2.2.1 rfl
    unfold validateRelativePath
    rw [if_neg, if_neg hdots]
    rintro (h | h)
    · rw [h] at hempty
      exact hempty (by decide)
    · exact hempty (head_segments_of_slash h)

theorem normalComponents_pathText (hv : ∀ n ∈ names, ValidName n) :
    normalComponents (pathText names) = names := by
  by_cases hne : names = []
  · rw [hne]
    decide
  · rw [normalComponents, segments_pathText hne hv, List.filter_eq_self]
    intro n hn
    obtain ⟨h₁, h₂, h₃, -⟩ := hv n hn
    simp [h₁, h₂, h₃]

end

/-! ## Ignored directories -/

theorem ignoredAncestor_go_none {seen names : List String}
    (h : ignoredAncestor.go seen names = none) : ∀ n ∈ names, n ∉ ignoredDirectories := by
  induction names generalizing seen with
  | nil => exact fun n hn => nomatch hn
  | cons name names ih =>
      simp only [ignoredAncestor.go] at h
      split at h
      · cases h
      · next hname =>
          intro n hn
          rcases List.mem_cons.mp hn with rfl | hn
          · exact hname
          · exact ih h n hn

/-! ## Display paths -/

def slash (c : Char) : Char := if c = '\\' then '/' else c

theorem displayPath_toList {path : String} (hne : path ≠ "") :
    (displayPath path).toList = path.toList.map slash := by
  have hvalue : String.ofList (path.toList.map slash) ≠ "" := by
    intro h
    rw [← String.toList_inj, String.toList_ofList] at h
    exact hne (by rw [← String.toList_inj]; simpa using h)
  have hdisplay : displayPath path = String.ofList (path.toList.map slash) := if_neg hvalue
  rw [hdisplay, String.toList_ofList]

theorem pathText_ne_empty {names : List String} (hv : ∀ n ∈ names, ValidName n) :
    pathText names ≠ "" := by
  intro h
  by_cases hne : names = []
  · rw [hne] at h
    exact absurd h (by decide)
  · have hsegments := segments_pathText hne hv
    rw [h] at hsegments
    have hempty : segments "" = [""] := by decide
    rw [hempty] at hsegments
    exact (hv "" (by rw [← hsegments]; exact List.mem_singleton_self _)).1 rfl

/-! ## Descending -/

/-- Down through real directories none of which is ignored. -/
inductive Node.Descends : Node → List String → Node → Prop where
  | refl (node : Node) : Descends node [] node
  | step {identity : FileIdentity} {entries : List (String × Node)} {name : String}
      {child node : Node} {rest : List String} (hentry : (name, child) ∈ entries)
      (hignored : child.kind = .directory → name ∉ ignoredDirectories)
      (hrest : Descends child rest node) :
      Descends (.directory identity entries) (name :: rest) node

namespace Node.Descends

variable {node node' : Node} {front : List String}

theorem valid (h : node.Descends front node') (hv : node.Valid) :
    node'.Valid ∧ ∀ n ∈ front, ValidName n := by
  induction h with
  | refl node => exact ⟨hv, fun n hn => nomatch hn⟩
  | step hentry _ _ ih =>
      cases hv with
      | directory _ _ _ names children =>
          obtain ⟨hnode, hrest⟩ := ih (children _ hentry)
          refine ⟨hnode, fun n hn => ?_⟩
          rcases List.mem_cons.mp hn with rfl | hn
          · exact names _ hentry
          · exact hrest n hn

theorem lookup_of_mem {entries : List (String × Node)} (h : (entries.map Prod.fst).Nodup)
    {name : String} {child : Node} (hmem : (name, child) ∈ entries) :
    entries.lookup name = some child := by
  induction entries with
  | nil => cases hmem
  | cons e entries ih =>
      rw [List.map_cons, List.nodup_cons] at h
      rcases List.mem_cons.mp hmem with rfl | hmem
      · exact List.lookup_cons_self
      · have hne : name ≠ e.1 := by
          rintro rfl
          exact h.1 (List.mem_map.mpr ⟨_, hmem, rfl⟩)
        rw [List.lookup_cons, beq_false_of_ne hne]
        exact ih h.2 hmem

/-- Going down is walking. -/
theorem walk (rest : List String) (h : node.Descends front node') (hv : node.Valid) :
    node.walk (front ++ rest) = node'.walk rest := by
  induction h with
  | refl node => rfl
  | @step identity entries name child node' front hentry _ hrest ih =>
      cases hv with
      | directory _ _ nodup names children =>
          obtain ⟨hempty, hdot, -⟩ := names _ hentry
          rw [List.cons_append, Node.walk, if_neg (by simp [hempty, hdot]),
            lookup_of_mem nodup hentry]
          exact ih (children _ hentry)

theorem walk_nil (h : node.Descends front node') (hv : node.Valid) :
    node.walk front = .ok node' := by
  have hwalk := walk [] h hv
  rwa [List.append_nil, Node.walk] at hwalk

end Node.Descends

/-! ## Accesses along names -/

theorem walk_cons {entries : List (String × Node)} {identity : FileIdentity} {name : String}
    {names : List String} {node : Node} (hname : ValidName name)
    (h : (Node.directory identity entries).walk (name :: names) = .ok node) :
    ∃ child, (name, child) ∈ entries ∧ child.walk names = .ok node := by
  rw [Node.walk, if_neg (by rintro (rfl | rfl); exacts [hname.1 rfl, hname.2.1 rfl])] at h
  split at h
  case h_1 child hlookup => exact ⟨child, mem_of_lookup hlookup, h⟩
  case h_2 => cases h

section

variable {root : Node} {names : List String}

theorem walk_segments (hroot : root.kind = .directory) (hv : ∀ n ∈ names, ValidName n) :
    root.walk (segments (pathText names)) = root.walk names := by
  by_cases hne : names = []
  · cases root with
    | directory identity entries =>
        have hdot : segments (pathText []) = ["."] := by decide
        rw [hne, hdot]
        simp [Node.walk]
    | file identity => cases hroot
    | symlink => cases hroot
    | other => cases hroot
  · rw [segments_pathText hne hv]

theorem openBeneath_ok {node : Node} (hroot : root.kind = .directory)
    (hv : ∀ n ∈ names, ValidName n) :
    openBeneath root (pathText names) = .ok node ↔
      root.walk names = .ok node ∧ node.kind ≠ .symlink := by
  have hvalidate := validateRelativePath_pathText hv
  unfold openBeneath
  rw [hvalidate, walk_segments hroot hv]
  cases hwalk : root.walk names with
  | error errno => exact ⟨(fun h => nomatch h), fun h => nomatch h.1⟩
  | ok found =>
      cases found with
      | symlink =>
          refine ⟨(fun h => nomatch h), ?_⟩
          rintro ⟨h, hkind⟩
          cases h
          exact absurd rfl hkind
      | file identity =>
          exact ⟨fun h => by cases h; exact ⟨rfl, nofun⟩, fun h => by cases h.1; rfl⟩
      | directory identity entries =>
          exact ⟨fun h => by cases h; exact ⟨rfl, nofun⟩, fun h => by cases h.1; rfl⟩
      | other => exact ⟨fun h => by cases h; exact ⟨rfl, nofun⟩, fun h => by cases h.1; rfl⟩

theorem openFile_iff {path : String} {identity : FileIdentity} :
    openFile root path = .ok identity ↔ openBeneath root path = .ok (.file identity) := by
  unfold openFile
  rw [bind_ok_iff]
  constructor
  · rintro ⟨node, hopen, h⟩
    cases node <;> first | (cases h; exact hopen) | cases h
  · exact fun h => ⟨_, h, rfl⟩

theorem openFile_pathText {identity : FileIdentity} (hroot : root.kind = .directory)
    (hv : ∀ n ∈ names, ValidName n) :
    openFile root (pathText names) = .ok identity ↔ root.walk names = .ok (.file identity) := by
  rw [openFile_iff, openBeneath_ok hroot hv]
  exact ⟨And.left, fun h => ⟨h, nofun⟩⟩

end

end Zos.Indexer
