import Zos.NasTools.PathSafety

/-!
# Containment of paths

`isPathWithin` decides whether the names of a directory are the first names of a path.
`isPathInside` asks that the relative path does not begin with two dots, which is the same but
for an entry whose own name begins so: `..data` lies in a directory and is taken to lie outside.
-/

namespace Zos.NasTools

open Zos.Lib Zos.Lib.Posix

variable {root loc directory : Location}

theorem prefix_of_isPathInside (h : isPathInside root loc = true) : root <+: loc := by
  apply NodePath.prefix_of_relative
  simp only [isPathInside, Bool.or_eq_true, Bool.and_eq_true, decide_eq_true_eq] at h
  obtain hsame | hbelow := h
  · rw [hsame]
    exact nofun
  · exact hbelow.1

/-- In a directory, below a name that starts with two dots. -/
def Dotted (directory loc : Location) : Prop :=
  ∃ name rest, loc = directory ++ name :: rest ∧ name.toList.take 2 = ['.', '.']

theorem dotted_of_not_inside {directory loc : Location} (hvalid : ∀ name ∈ loc, ValidName name)
    (hbelow : directory <+: loc) (h : isPathInside directory loc = false) :
    Dotted directory loc := by
  obtain ⟨rest, rfl⟩ := hbelow
  simp only [isPathInside, NodePath.relative_append, Bool.or_eq_false_iff,
    Bool.and_eq_false_iff, decide_eq_false_iff_not, Bool.not_eq_false', ne_eq, not_not] at h
  obtain ⟨hne, hcase⟩ := h
  cases rest with
  | nil => exact absurd rfl hne
  | cons name rest =>
      obtain ⟨hempty, hdot, -, hslash⟩ := hvalid name (by simp)
      obtain ⟨c, cs, hname⟩ := List.exists_cons_of_ne_nil (mt String.toList_eq_nil_iff.mp hempty)
      obtain ⟨more, hmore⟩ := NodePath.toList_joinSegments_cons name rest
      refine ⟨name, rest, rfl, ?_⟩
      rw [hname] at hmore hslash ⊢
      rcases hcase with hdots | habsolute
      · rw [hmore] at hdots
        cases cs with
        | nil =>
            -- a single dot is no name
            obtain rfl := (List.cons.inj hdots).1
            exact absurd (String.toList_injective hname) hdot
        | cons c' cs => exact hdots
      · rw [isAbsolute, hmore, List.cons_append, List.head?_cons, decide_eq_true_eq,
          Option.some.injEq] at habsolute
        subst habsolute
        exact absurd List.mem_cons_self hslash

/-- The relative path to such an entry begins with two dots. -/
theorem not_inside_of_dotted (h : Dotted directory loc) : isPathInside directory loc = false := by
  obtain ⟨name, rest, rfl, hdots⟩ := h
  obtain ⟨more, hmore⟩ := NodePath.toList_joinSegments_cons name rest
  have htake : (joinSegments (name :: rest)).toList.take 2 = ['.', '.'] := by
    rw [hmore, List.take_append_of_le_length, hdots]
    have hlength := congrArg List.length hdots
    simp only [List.length_take, List.length_cons, List.length_nil] at hlength
    omega
  have hne : joinSegments (name :: rest) ≠ "" := by
    intro heq
    rw [heq] at htake
    cases htake
  simp [isPathInside, NodePath.relative_append, htake, hne]

/-! ## The exact test -/

theorem isPathWithin_iff (hvalid : ∀ name ∈ loc, ValidName name) :
    isPathWithin root loc = true ↔ root <+: loc := by
  constructor
  · intro h
    by_contra hnot
    obtain ⟨names, hnames⟩ := NodePath.relative_of_not_prefix hnot
    unfold isPathWithin at h
    rw [hnames] at h
    cases names with
    | nil => exact absurd h (by decide)
    | cons name rest =>
        have hdots : (joinSegments (".." :: name :: rest)).toList.take 3 = ['.', '.', '/'] := by
          simp [joinSegments, List.intercalate_cons_cons]
        have hne : joinSegments (".." :: name :: rest) ≠ "" := by
          intro heq
          rw [heq] at hdots
          cases hdots
        simp [hdots, hne] at h
  · rintro ⟨rest, rfl⟩
    have hrest : ∀ name ∈ rest, ValidName name := fun name hname =>
      hvalid name (List.mem_append_right _ hname)
    simp only [isPathWithin, NodePath.relative_append, NodePath.isAbsolute_joinSegments hrest]
    by_cases hnil : rest = []
    · rw [hnil]
      rfl
    · have hsegments := NodePath.segments_valid hrest hnil
      -- two dots are no name, so they are not the first segment
      have hdots : ".." ∉ rest := fun hmem => (hrest ".." hmem).2.2.1 rfl
      have hsame : joinSegments rest ≠ ".." := by
        intro heq
        rw [heq, segments_of_notMem (by decide)] at hsegments
        exact hdots (hsegments ▸ List.mem_singleton_self _)
      have hbegins : (joinSegments rest).toList.take 3 ≠ ['.', '.', '/'] := by
        intro htake
        have hsplit : joinSegments rest =
            ".." ++ "/" ++ .ofList ((joinSegments rest).toList.drop 3) := by
          apply String.toList_injective
          rw [String.toList_append, String.toList_ofList]
          exact (List.take_append_drop 3 _).symm.trans (by rw [htake]; rfl)
        rw [hsplit, segments_append_slash, segments_of_notMem (by decide)] at hsegments
        exact hdots (hsegments ▸ List.mem_cons_self)
      simp [hsame, hbegins]

/-- The test is containment, agrees with the one of the approvals route, and lets a path that
exists and leads there through. -/
structure ExactAt (root candidate : Location) : Prop where
  inside : isPathInside root candidate = true ↔ root <+: candidate
  agrees : isPathInside root candidate = isPathWithin root candidate
  accepts : ∀ {File : Type} (fs : FileSystem File) rootPath requestedPath,
    isAbsolute requestedPath = false → fs.realpath rootPath = .ok root →
    fs.realpath (NodePath.resolve root requestedPath) = .ok candidate → root <+: candidate →
      ∃ safe, resolveSafeExistingPath fs rootPath requestedPath = .ok safe ∧
        safe.realPath = candidate

/-- Exactly but for the entries of the root whose name begins with two dots. -/
theorem isPathInside_exact_iff (root candidate : Location)
    (hvalid : ∀ name ∈ candidate, ValidName name) :
    ExactAt root candidate ↔ ¬Dotted root candidate := by
  constructor
  · intro hexact hdotted
    obtain ⟨name, rest, rfl, -⟩ := id hdotted
    have hinside := hexact.inside.mpr (List.prefix_append root (name :: rest))
    rw [not_inside_of_dotted hdotted] at hinside
    cases hinside
  · intro hplain
    have hinside : root <+: candidate → isPathInside root candidate = true := by
      intro hbelow
      by_contra hout
      exact hplain (dotted_of_not_inside hvalid hbelow (Bool.not_eq_true _ ▸ hout))
    refine ⟨⟨prefix_of_isPathInside, hinside⟩, ?_, ?_⟩
    · rw [Bool.eq_iff_iff, isPathWithin_iff hvalid]
      exact ⟨prefix_of_isPathInside, hinside⟩
    · intro File fs rootPath requestedPath hrelative hroot hreal hbelow
      refine ⟨⟨root, NodePath.resolve root requestedPath, candidate,
        toRootRelative root candidate⟩, ?_, rfl⟩
      simp [resolveSafeExistingPath, hrelative, hroot, hreal, hinside hbelow, Except.mapError,
        bind, Except.bind, pure, Except.pure]

theorem isPathInside_exact_movie :
    ExactAt ["data"] ["data", "movies", "a.mp4"] ↔ ¬Dotted ["data"] ["data", "movies", "a.mp4"] :=
  isPathInside_exact_iff _ _ (by decide)

/-- A directory that Kubernetes names so is in the root, and the test says that it is not. -/
theorem isPathInside_not_exact :
    ["data"] <+: ["data", "..data"] ∧ isPathWithin ["data"] ["data", "..data"] = true ∧
      isPathInside ["data"] ["data", "..data"] = false := by
  decide

end Zos.NasTools
