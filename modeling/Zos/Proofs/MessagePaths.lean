import Zos.Lib.Path
import Zos.Web.ChatPaths
import Mathlib.Data.List.DropRight

/-!
# Messages are cut faithfully

What normalisation returns is a slash and clean names between slashes (`Clean`), so every question
about two normalised paths is a question about two lists of names. The loop that checks the
traversal walks the same directories as normalisation does, and what it remembers of them is
whether the root has been entered. Of the loop over the message nothing matters but the order of
its positions: `textStart ≤ cursor ≤ pathStart ≤ pathEnd`.
-/

namespace Zos.Web.ChatPaths

open Zos.Lib

/-! ## Normalised texts -/

theorem trim_front (text : Text) : trim text <+: text.dropWhile whiteSpace :=
  List.rdropWhile_prefix whiteSpace _

theorem trim_trim (text : Text) : trim (trim text) = trim text := trimBy_trimBy whiteSpace text

theorem backslash_notMem_forwardSlashes (text : Text) : backslash ∉ forwardSlashes text := by
  intro h
  obtain ⟨c, _, hc⟩ := List.mem_map.mp h
  split at hc
  · exact absurd hc (by decide)
  · next hne => exact hne hc

theorem forwardSlashes_of_notMem {text : Text} (h : backslash ∉ text) :
    forwardSlashes text = text := by
  rw [forwardSlashes]
  refine (List.map_congr_left fun c hc => if_neg ?_).trans (List.map_id' text)
  rintro rfl
  exact h hc

theorem mem_of_mem_trim {text : Text} {c : CodeUnit} (h : c ∈ trim text) : c ∈ text :=
  (List.dropWhile_suffix _).subset ((trim_front text).subset h)

theorem backslash_notMem_trim (path : Text) : backslash ∉ trim (forwardSlashes path) := fun h =>
  backslash_notMem_forwardSlashes path (mem_of_mem_trim h)

theorem trim_forwardSlashes_idem (path : Text) :
    trim (forwardSlashes (trim (forwardSlashes path))) = trim (forwardSlashes path) := by
  rw [forwardSlashes_of_notMem (backslash_notMem_trim path), trim_trim]

/-! ## Clean names -/

structure Clean (name : Text) : Prop where
  ne_nil : name ≠ []
  ne_dot : name ≠ [dot]
  ne_dots : name ≠ [dot, dot]
  slash : slash ∉ name
  backslash : backslash ∉ name

/-- Names as they stand in a path. -/
theorem mem_names {path name : Text} (h : name ∈ names path) :
    slash ∉ name ∧ backslash ∉ name := by
  constructor
  · intro hslash
    exact not_of_mem_splitOnP h slash hslash (by simp)
  · intro hbackslash
    exact backslash_notMem_trim path (mem_of_mem_splitOnP h hbackslash)

theorem resolveSegments_spec {stack rest segments : List Text}
    (h : resolveSegments stack rest = some segments) (hstack : ∀ name ∈ stack, Clean name)
    (hrest : ∀ name ∈ rest, slash ∉ name ∧ backslash ∉ name) :
    rest.foldl move stack = segments ∧ ∀ name ∈ segments, Clean name := by
  induction rest generalizing stack with
  | nil =>
      cases h
      exact ⟨rfl, hstack⟩
  | cons name rest ih =>
      have hnames : ∀ name ∈ rest, slash ∉ name ∧ backslash ∉ name := fun name' hname' =>
        hrest name' (List.mem_cons_of_mem name hname')
      rw [resolveSegments] at h
      rw [List.foldl_cons, move]
      split at h
      · next hskip =>
          rw [if_pos hskip]
          exact ih h hstack hnames
      · next hskip =>
          rw [if_neg hskip]
          split at h
          · next hdots =>
              rw [if_pos hdots]
              split at h
              · cases h
              · refine ih h (fun name' hname' => ?_) hnames
                exact hstack name' ((List.dropLast_sublist stack).subset hname')
          · next hdots =>
              rw [if_neg hdots]
              refine ih h ?_ hnames
              intro name' hname'
              rcases List.mem_append.mp hname' with hname' | hname'
              · exact hstack name' hname'
              · rw [List.mem_singleton.mp hname']
                rw [not_or] at hskip
                obtain ⟨hslash, hbackslash⟩ := hrest name List.mem_cons_self
                exact ⟨hskip.1, hskip.2, hdots, hslash, hbackslash⟩

/-- A normalised path is a slash and clean names. -/
theorem normalize_spec {path normalized : Text}
    (h : normalizeAbsolutePosixPath path = some normalized) :
    ∃ segments, normalized = slash :: join segments ∧ (names path).foldl move [] = segments ∧
      ∀ name ∈ segments, Clean name := by
  rw [normalizeAbsolutePosixPath] at h
  split at h
  · obtain ⟨segments, hresolved, rfl⟩ := Option.map_eq_some_iff.mp h
    obtain ⟨hmoved, hclean⟩ := resolveSegments_spec hresolved nofun fun name => mem_names
    exact ⟨segments, rfl, hmoved, hclean⟩
  · cases h

theorem normalize_trim (path : Text) :
    normalizeAbsolutePosixPath (trim (forwardSlashes path)) = normalizeAbsolutePosixPath path := by
  rw [normalizeAbsolutePosixPath, trim_forwardSlashes_idem, normalizeAbsolutePosixPath]

section Join

variable {segments : List Text}

theorem splitOn_join (hne : segments ≠ []) (h : ∀ name ∈ segments, Clean name) :
    (join segments).splitOn slash = segments :=
  List.splitOn_intercalate slash (fun name hname => (h name hname).slash) hne

/-- A slash stands between two names. -/
theorem join_eq_append (hne : segments ≠ []) (h : ∀ name ∈ segments, Clean name)
    {front back : Text} (heq : join segments = front ++ slash :: back) :
    front ≠ [] ∧ back ≠ [] := by
  have hsplit := splitOn_join hne h
  rw [heq, splitOn_append_sep] at hsplit
  constructor
  · rintro rfl
    have hmem : [] ∈ segments := hsplit ▸ List.mem_append_left _ List.mem_cons_self
    exact (h [] hmem).ne_nil rfl
  · rintro rfl
    have hmem : [] ∈ segments := hsplit ▸ List.mem_append_right _ List.mem_cons_self
    exact (h [] hmem).ne_nil rfl

theorem join_ne_nil (hne : segments ≠ []) (h : ∀ name ∈ segments, Clean name) :
    join segments ≠ [] := by
  intro hnil
  have hsplit := splitOn_join hne h
  rw [hnil] at hsplit
  have hmem : [] ∈ segments := hsplit ▸ List.mem_cons_self
  exact (h [] hmem).ne_nil rfl

theorem join_ne_dot (hne : segments ≠ []) (h : ∀ name ∈ segments, Clean name) :
    join segments ≠ [dot] := by
  intro hdot
  have hsplit := splitOn_join hne h
  rw [hdot] at hsplit
  have hmem : [dot] ∈ segments := by
    rw [← hsplit]
    decide
  exact (h [dot] hmem).ne_dot rfl

theorem join_injective {others : List Text} (h : ∀ name ∈ segments, Clean name)
    (hothers : ∀ name ∈ others, Clean name) (heq : join segments = join others) :
    segments = others := by
  by_cases hne : segments = []
  · by_contra hdifferent
    have hother : others ≠ [] := fun hnil => hdifferent (hne.trans hnil.symm)
    exact join_ne_nil hother hothers (by rw [← heq, hne]; rfl)
  · have hother : others ≠ [] := by
      rintro rfl
      exact join_ne_nil hne h heq
    exact intercalate_injective hne hother (fun name hname => (h name hname).slash)
      (fun name hname => (hothers name hname).slash) heq

theorem backslash_notMem_join (h : ∀ name ∈ segments, Clean name) : backslash ∉ join segments :=
  notMem_intercalate (by decide) fun name hname => (h name hname).backslash

/-- Nothing is stripped from the front. -/
theorem dropWhile_join (hne : segments ≠ []) (h : ∀ name ∈ segments, Clean name) :
    (join segments).dropWhile (· = slash) = join segments := by
  cases hjoin : join segments with
  | nil => rfl
  | cons c rest =>
      refine List.dropWhile_cons_of_neg ?_
      intro hc
      rw [of_decide_eq_true hc] at hjoin
      exact (join_eq_append hne h (hjoin.trans (List.nil_append _).symm)).1 rfl

/-- Nothing is stripped from the end. -/
theorem rdropWhile_join (hne : segments ≠ []) (h : ∀ name ∈ segments, Clean name)
    (front : Text) :
    (front ++ join segments).rdropWhile (· = slash) = front ++ join segments := by
  obtain ⟨start, c, hjoin⟩ := Or.resolve_left (List.eq_nil_or_concat' _) (join_ne_nil hne h)
  have hc : ¬decide (c = slash) = true := by
    intro hc
    rw [of_decide_eq_true hc] at hjoin
    exact (join_eq_append hne h hjoin).2 rfl
  rw [hjoin, ← List.append_assoc]
  exact List.rdropWhile_concat_neg (· = slash) _ c hc

end Join

/-! ## The root -/

/-- A normalised root and its names. -/
theorem Root.spec (root : Root) : root.path = slash :: join (rootSegments root.path) ∧
    ∀ name ∈ rootSegments root.path, Clean name := by
  obtain ⟨segments, hpath, -, hclean⟩ := normalize_spec root.normalized
  have hsegments : rootSegments root.path = segments := by
    rw [rootSegments, hpath, List.drop_one, List.tail_cons]
    by_cases hne : segments = []
    · rw [hne]
      rfl
    · rw [splitOn_join hne hclean, List.filter_eq_self]
      intro name hname
      exact decide_eq_true (hclean name hname).ne_nil
  rw [hsegments]
  exact ⟨hpath, hclean⟩

section WorkspacePath

variable {root below : List Text}

theorem strip_root (hroot : ∀ name ∈ root, Clean name) :
    (if ((forwardSlashes (slash :: join root)).reverse.dropWhile (· = slash)).reverse = [] then
        [slash]
      else ((forwardSlashes (slash :: join root)).reverse.dropWhile (· = slash)).reverse) =
      slash :: join root := by
  have hslashes : forwardSlashes (slash :: join root) = slash :: join root := by
    refine forwardSlashes_of_notMem ?_
    rw [List.mem_cons, not_or]
    exact ⟨by decide, backslash_notMem_join hroot⟩
  rw [hslashes]
  by_cases hne : root = []
  · rw [hne]
    rfl
  · have hstrip : ((slash :: join root).reverse.dropWhile (· = slash)).reverse =
        slash :: join root := rdropWhile_join hne hroot [slash]
    rw [hstrip, if_neg (List.cons_ne_nil _ _)]

/-- The root and the names below it. -/
theorem workspaceAbsolutePath_join (hroot : ∀ name ∈ root, Clean name)
    (hbelow : ∀ name ∈ below, Clean name) (hne : below ≠ []) :
    workspaceAbsolutePath (slash :: join root) (join below) = slash :: join (root ++ below) := by
  have hstrip : (((join below).dropWhile (· = slash)).reverse.dropWhile (· = slash)).reverse =
      join below := by
    rw [dropWhile_join hne hbelow]
    exact rdropWhile_join hne hbelow []
  rw [workspaceAbsolutePath, strip_root hroot,
    forwardSlashes_of_notMem (backslash_notMem_join hbelow), hstrip,
    if_neg (not_or.mpr ⟨join_ne_nil hne hbelow, join_ne_dot hne hbelow⟩)]
  by_cases hempty : root = []
  · rw [hempty]
    exact if_pos rfl
  · rw [if_neg fun h => join_ne_nil hempty hroot (List.cons.inj h).2, List.cons_append]
    exact congrArg _ (intercalate_append hempty hne).symm

theorem workspaceAbsolutePath_dot (hroot : ∀ name ∈ root, Clean name) :
    workspaceAbsolutePath (slash :: join root) [dot] = slash :: join root := by
  rw [workspaceAbsolutePath, strip_root hroot]
  exact if_pos (.inr (by decide))

end WorkspacePath

/-! ## The traversal -/

/-- Once the root is entered it is not left. -/
abbrev Keeps (root : List Text) (directories : List (List Text)) : Prop :=
  directories.Pairwise fun earlier later => root <+: earlier → root <+: later

theorem Keeps.below {root stack rest : List Text} (h : Keeps root (visited stack rest))
    (hstack : root <+: stack) : ∀ directory ∈ visited stack rest, root <+: directory := by
  cases rest with
  | nil =>
      intro directory hdirectory
      rwa [List.mem_singleton.mp hdirectory]
  | cons name rest =>
      intro directory hdirectory
      rcases List.mem_cons.mp hdirectory with rfl | hlater
      · exact hstack
      · exact (List.pairwise_cons.mp h).1 directory hlater hstack

theorem Keeps.cons {root stack rest : List Text} {name : Text}
    (h : Keeps root (visited (move stack name) rest))
    (hmove : root <+: stack → root <+: move stack name) :
    Keeps root (visited stack (name :: rest)) :=
  List.pairwise_cons.mpr ⟨fun later hlater hstack => h.below (hmove hstack) later hlater, h⟩

/-- A directory beside neither the root nor its ancestors is below the root if it is as deep. -/
theorem prefix_of_matches {root next : List Text}
    (h : matchesRootPrefix root next = true) (hlength : root.length ≤ next.length) :
    root <+: next := by
  rw [matchesRootPrefix] at h
  split at h
  · next hle =>
      have hsame : next = root :=
        (List.isPrefixOf_iff_prefix.mp h).eq_of_length (Nat.le_antisymm hle hlength)
      exact hsame ▸ List.prefix_refl next
  · exact List.isPrefixOf_iff_prefix.mp h

/-- The root is entered by the name that completes it. -/
theorem eq_of_enters {root stack : List Text} {name : Text} (h : root <+: move stack name)
    (hstack : ¬root <+: stack) : root = move stack name := by
  unfold move at h ⊢
  split
  · next hskip =>
      rw [if_pos hskip] at h
      exact absurd h hstack
  · next hskip =>
      rw [if_neg hskip] at h
      split
      · next hdots =>
          rw [if_pos hdots] at h
          exact absurd (h.trans (List.dropLast_prefix stack)) hstack
      · next hdots =>
          rw [if_neg hdots] at h
          exact (List.prefix_concat_iff.mp h).resolve_right hstack

/-- The flag after a move, given the one before it. -/
theorem entered_iff {root stack : List Text} {name : Text} {entered : Bool}
    (hentered : entered = true ↔ root <+: stack)
    (hmatches : matchesRootPrefix root (move stack name) = true)
    (hdeep : entered = true → root.length ≤ (move stack name).length) :
    (entered || (decide ((move stack name).length = root.length) &&
      matchesRootPrefix root (move stack name))) = true ↔ root <+: move stack name := by
  rw [hmatches, Bool.and_true, Bool.or_eq_true, decide_eq_true_eq]
  constructor
  · intro hcases
    rcases hcases with hin | hequal
    · exact prefix_of_matches hmatches (hdeep hin)
    · exact prefix_of_matches hmatches (Nat.le_of_eq hequal.symm)
  · intro hbelow
    by_cases hin : entered = true
    · exact .inl hin
    · exact .inr (congrArg List.length (eq_of_enters hbelow (mt hentered.mpr hin)).symm)

/-- What the loop remembers is whether the directory is below the root. -/
theorem staysInside_keeps {root stack rest : List Text} {entered : Bool}
    (h : staysInside root entered stack rest = true)
    (hentered : entered = true ↔ root <+: stack) : Keeps root (visited stack rest) := by
  induction rest generalizing stack entered with
  | nil => exact List.pairwise_singleton ..
  | cons name rest ih =>
      rw [staysInside] at h
      split at h
      · next hskip =>
          have hmove : move stack name = stack := if_pos hskip
          refine .cons ?_ ?_
          · rw [hmove]
            exact ih h hentered
          · rw [hmove]
            exact id
      · next hskip =>
          split at h
          · cases h
          · have hmove : move stack name =
                if name = [dot, dot] then stack.dropLast else stack ++ [name] := if_neg hskip
            rw [← hmove] at h
            dsimp only at h
            split at h
            · cases h
            · next hchecks =>
                simp only [Bool.or_eq_true, Bool.not_eq_true', Bool.and_eq_true,
                  decide_eq_true_eq, not_or, Bool.not_eq_false, not_and, Nat.not_lt] at hchecks
                obtain ⟨hmatches, hdeep⟩ := hchecks
                have hnext := entered_iff hentered hmatches hdeep
                refine .cons (ih h hnext) fun hstack => ?_
                exact hnext.mp (by rw [hentered.mpr hstack, Bool.true_or])

theorem keeps_of_pathTraversal {root : Root} {value : Text}
    (h : pathTraversalStaysInsideRoot (trim (forwardSlashes value)) root.path = true) :
    Keeps (rootSegments root.path) (visited [] (names value)) := by
  by_cases hempty : rootSegments root.path = []
  · rw [hempty]
    exact List.pairwise_of_forall fun _ _ _ => List.nil_prefix
  · obtain ⟨hpath, hclean⟩ := root.spec
    have hne : root.path ≠ [slash] := by
      intro heq
      have hjoin := (List.cons.inj (heq.symm.trans hpath)).2
      exact join_ne_nil hempty hclean hjoin.symm
    rw [pathTraversalStaysInsideRoot, decide_eq_false hne, Bool.false_or] at h
    refine staysInside_keeps h (iff_of_false Bool.false_ne_true ?_)
    rwa [List.prefix_nil]

/-! ## One path -/

section OnePath

variable {root : Root} {value : Text} {below : List Text}

theorem resolves_root (hvalue : normalizeAbsolutePosixPath value = some root.path)
    (hmoved : (names value).foldl move [] = rootSegments root.path)
    (hkeeps : Keeps (rootSegments root.path) (visited [] (names value))) :
    Resolves root value ⟨value, [dot]⟩ where
  display := rfl
  inside := ⟨[], by rw [hmoved, List.append_nil]⟩
  stays := hkeeps
  clean := .inl rfl
  absolute := by
    obtain ⟨hpath, hroot⟩ := root.spec
    rw [hvalue, hpath, workspaceAbsolutePath_dot hroot]

theorem resolves_below
    (hvalue : normalizeAbsolutePosixPath value =
      some (slash :: join (rootSegments root.path ++ below)))
    (hmoved : (names value).foldl move [] = rootSegments root.path ++ below)
    (hkeeps : Keeps (rootSegments root.path) (visited [] (names value))) (hne : below ≠ [])
    (hbelow : ∀ name ∈ below, Clean name) : Resolves root value ⟨value, join below⟩ where
  display := rfl
  inside := ⟨below, hmoved⟩
  stays := hkeeps
  clean := by
    refine .inr fun name hname => ?_
    rw [splitOn_join hne hbelow] at hname
    have hclean := hbelow name hname
    exact ⟨hclean.ne_nil, hclean.ne_dot, hclean.ne_dots⟩
  absolute := by
    obtain ⟨hpath, hroot⟩ := root.spec
    rw [hvalue, ← workspaceAbsolutePath_join hroot hbelow hne, ← hpath]

/-- A path that goes on behind the root has more names. -/
theorem exists_below {root segments : List Text} (hroot : ∀ name ∈ root, Clean name)
    (hclean : ∀ name ∈ segments, Clean name) (hne : slash :: join segments ≠ slash :: join root)
    (hfront : rootPrefix (slash :: join root) <+: slash :: join segments) :
    ∃ below, segments = root ++ below ∧ below ≠ [] ∧
      afterRoot (slash :: join root) (slash :: join segments) = join below := by
  by_cases hempty : root = []
  · subst hempty
    have hsegments : segments ≠ [] := by
      rintro rfl
      exact hne rfl
    refine ⟨segments, rfl, hsegments, ?_⟩
    exact (if_pos rfl).trans (if_neg (join_ne_nil hsegments hclean))
  · have hroots : slash :: join root ≠ [slash] := fun h =>
      join_ne_nil hempty hroot (List.cons.inj h).2
    rw [rootPrefix, if_neg hroots] at hfront
    obtain ⟨rest, hrest⟩ := hfront
    have hjoin : join segments = join root ++ slash :: rest := by
      rw [List.cons_append, List.cons_append, List.append_assoc] at hrest
      exact (List.cons.inj hrest).2.symm
    have hsegments : segments ≠ [] := by
      rintro rfl
      exact absurd hjoin.symm (List.append_ne_nil_of_right_ne_nil _ (List.cons_ne_nil _ _))
    have hnames := names_of_append_sep hempty hsegments (fun name hname => (hroot name hname).slash)
      (fun name hname => (hclean name hname).slash) hjoin
    refine ⟨rest.splitOn slash, hnames, List.splitOnP_ne_nil _ _, ?_⟩
    rw [afterRoot, if_neg hroots, rootPrefix, if_neg hroots, ← hrest, List.drop_left]
    exact (List.intercalate_splitOn slash).symm

theorem resolves_of_resolve {found : WorkspaceMessagePath}
    (h : resolveWorkspaceMessagePath value root.path = some found) : Resolves root value found := by
  obtain ⟨hpath, hroot⟩ := root.spec
  rw [resolveWorkspaceMessagePath, normalize_trim, root.normalized] at h
  split at h
  · cases h
  · cases hvalue : normalizeAbsolutePosixPath value with
    | none =>
        rw [hvalue] at h
        cases h
    | some candidate =>
        obtain ⟨segments, rfl, hmoved, hclean⟩ := normalize_spec hvalue
        rw [hvalue] at h
        dsimp only at h
        split at h
        · cases h
        · next hstays =>
            have hkeeps : Keeps (rootSegments root.path) (visited [] (names value)) :=
              keeps_of_pathTraversal (by simpa using hstays)
            split at h
            · next hsame =>
                cases h
                rw [hpath] at hsame
                have hsegments := join_injective hclean hroot (List.cons.inj hsame).2
                rw [hsegments] at hmoved hvalue
                rw [← hpath] at hvalue
                exact resolves_root hvalue hmoved hkeeps
            · next hdifferent =>
                split at h
                · cases h
                · next hfront =>
                    cases h
                    have hfront : rootPrefix root.path <+: slash :: join segments := by
                      simpa using hfront
                    rw [hpath] at hdifferent hfront
                    obtain ⟨below, rfl, hne, hafter⟩ :=
                      exists_below hroot hclean hdifferent hfront
                    rw [← hpath] at hafter
                    rw [hafter]
                    refine resolves_below hvalue hmoved hkeeps hne fun name hname => ?_
                    exact hclean name (List.mem_append_right _ hname)

end OnePath

/-! ## The message -/

theorem take_append_slice (text : Text) {first last : Nat} (h : first ≤ last) :
    text.take first ++ slice text first last = text.take last := by
  obtain ⟨n, rfl⟩ := Nat.exists_eq_add_of_le h
  rw [slice, Nat.add_sub_cancel_left, ← List.take_add]

theorem indexOf_le {pattern text : Text} {start i : Nat}
    (h : indexOf pattern text start = some i) : i ≤ text.length := by
  have hrange := List.mem_range'_1.mp (List.mem_of_find?_eq_some h)
  omega

theorem le_quotedEnd {text : Text} {pathStart last : Nat}
    (h : quotedEnd text pathStart = some last) : pathStart ≤ last := by
  rw [quotedEnd] at h
  split at h
  · split at h
    · exact le_of_indexOf h
    · cases h
  · cases h

/-- What is taken off at the end is part of the candidate. -/
theorem le_pathEndOf {text : Text} {pathStart : Nat} (h : pathStart ≤ text.length) :
    pathStart ≤ pathEndOf text pathStart := by
  rw [pathEndOf]
  split
  · next hquoted => exact le_quotedEnd hquoted
  · dsimp only
    have hend : pathStart ≤ if standaloneLinePath text pathStart then
        unquotedLineEnd text pathStart else unquotedPathEnd text pathStart := by
      split
      · rw [unquotedLineEnd]
        split
        · exact h
        · exact Nat.le_add_right ..
      · exact Nat.le_add_right ..
    generalize (if standaloneLinePath text pathStart then
      unquotedLineEnd text pathStart else unquotedPathEnd text pathStart) = last at hend
    have hlength : (slice text pathStart last).length ≤ last - pathStart :=
      List.length_take_le ..
    omega

/-- The message is cut up to a position. -/
structure Cut (root : Root) (text : Text) (segments : List Segment) (textStart : Nat) : Prop where
  whole : segments.flatMap Segment.value = text.take textStart
  paths : ∀ value found, .path value found ∈ segments → Resolves root value found

theorem Cut.path {root : Root} {text : Text} {segments : List Segment}
    {textStart pathStart pathEnd : Nat} {found : WorkspaceMessagePath}
    (h : Cut root text segments textStart) (hstart : textStart ≤ pathStart)
    (hend : pathStart ≤ pathEnd)
    (hfound : resolveWorkspaceMessagePath (slice text pathStart pathEnd) root.path = some found) :
    Cut root text (segments ++ textBefore text textStart pathStart ++
      [.path (slice text pathStart pathEnd) found]) pathEnd where
  whole := by
    have hbefore : (textBefore text textStart pathStart).flatMap Segment.value =
        slice text textStart pathStart := by
      rw [textBefore]
      split
      · exact List.append_nil _
      · rw [slice, Nat.sub_eq_zero_of_le (by omega), List.take_zero]
        rfl
    rw [List.flatMap_append, List.flatMap_append, h.whole, hbefore, take_append_slice text hstart]
    exact (congrArg _ (List.append_nil _)).trans (take_append_slice text hend)
  paths value found' hmem := by
    rcases List.mem_append.mp hmem with hmem | hmem
    · rcases List.mem_append.mp hmem with hmem | hmem
      · exact h.paths value found' hmem
      · rw [textBefore] at hmem
        split at hmem
        · cases List.mem_singleton.mp hmem
        · cases hmem
    · cases List.mem_singleton.mp hmem
      exact resolves_of_resolve hfound

/-- Every round keeps the message cut up to `textStart`. -/
theorem splitFrom_cut {root : Root} {letterOrNumber : CodeUnit → Bool} {first : CodeUnit}
    {rootTail text : Text} {cursor textStart : Nat} {segments : List Segment}
    (hroot : root.path = first :: rootTail) (hcursor : textStart ≤ cursor)
    (h : Cut root text segments textStart) :
    Cut root text (splitFrom letterOrNumber first rootTail text cursor textStart segments).1
      (splitFrom letterOrNumber first rootTail text cursor textStart segments).2 := by
  fun_induction splitFrom letterOrNumber first rootTail text cursor textStart segments with
  | case1 => exact h
  | case2 cursor textStart segments _ pathStart _ hstart _ _ _ _ ih =>
      exact ih (by omega) h
  | case3 cursor textStart segments _ pathStart hindex hstart _ pathEnd candidate found hfound ih =>
      refine ih (Nat.le_max_left ..) (h.path (by omega) (le_pathEndOf (indexOf_le hindex)) ?_)
      rw [hroot]
      exact hfound
  | case4 cursor textStart segments _ pathStart _ hstart _ ih => exact ih (by omega) h
  | case5 => exact h

/-- Messages are cut faithfully. -/
theorem messages_cut_faithfully (letterOrNumber : CodeUnit → Bool) (text : Text) (root : Root) :
    FaithfulCut root text (splitWorkspaceMessagePaths letterOrNumber text root.path) := by
  have hplain : FaithfulCut root text [.text text] := by
    refine ⟨List.append_nil _, ?_⟩
    intro value found hmem
    cases List.mem_singleton.mp hmem
  rw [splitWorkspaceMessagePaths, root.normalized]
  split
  · exact hplain
  · exact hplain
  · next first rootTail hroot =>
      split
      · exact hplain
      · have hempty : Cut root text [] 0 := ⟨rfl, nofun⟩
        have hcut := @splitFrom_cut root letterOrNumber first rootTail text 0 0 []
          (Option.some.inj hroot) (Nat.le_refl 0) hempty
        generalize splitFrom letterOrNumber first rootTail text 0 0 [] = result at hcut
        obtain ⟨segments, textStart⟩ := result
        dsimp only at hcut ⊢
        split
        · exact hplain
        · split
          · next hmore =>
              refine ⟨?_, ?_⟩
              · rw [List.flatMap_append, hcut.whole]
                refine (congrArg _ (List.append_nil _)).trans ?_
                rw [Segment.value, take_append_slice text (Nat.le_of_lt hmore), List.take_length]
              · intro value found hmem
                rcases List.mem_append.mp hmem with hmem | hmem
                · exact hcut.paths value found hmem
                · cases List.mem_singleton.mp hmem
          · next hdone =>
              refine ⟨?_, hcut.paths⟩
              rw [hcut.whole, List.take_of_length_le (Nat.le_of_not_lt hdone)]

def films : Root := ⟨slash :: "films".toList.map unit, by decide⟩

def message : Text := "in /films/b".toList.map unit

def messageSegments : List Segment :=
  [.text (message.take 3), .path (message.drop 3) ⟨message.drop 3, [unit 'b']⟩]

theorem splitFrom_message :
    splitFrom (fun _ => false) slash ("films".toList.map unit) message 0 0 [] =
      (messageSegments, 11) := by
  have hfound : indexOf (slash :: "films".toList.map unit) message 0 = some 3 := by decide
  have hresolve : resolveWorkspaceMessagePath (slice message 3 (pathEndOf message 3))
      (slash :: "films".toList.map unit) = some ⟨message.drop 3, [unit 'b']⟩ := by decide
  rw [splitFrom, dif_pos (by decide)]
  split
  · next h => cases hfound.symm.trans h
  · next pathStart h =>
      cases hfound.symm.trans h
      simp only [hresolve]
      rw [if_pos (by decide), splitFrom, dif_neg (by decide)]
      decide

theorem message_cut_at_path :
    splitWorkspaceMessagePaths (fun _ => false) message films.path = messageSegments ∧
      FaithfulCut films message messageSegments := by
  have hsplit : splitWorkspaceMessagePaths (fun _ => false) message films.path =
      messageSegments := by
    simp only [splitWorkspaceMessagePaths, films.normalized]
    simp only [films, splitFrom_message]
    decide
  exact ⟨hsplit, hsplit ▸ messages_cut_faithfully _ message films⟩
end Zos.Web.ChatPaths
