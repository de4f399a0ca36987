import Zos.Storage.Mounts

/-!
# What the look-ups make of the mount table

The kernel's escapes are undone one after the other, the backslash last, and each replacement finds
the texts of its own character only: the other texts differ behind their backslash and have none
inside. So a field is read back to the name it was written from, as far as it is one field. White
space that the kernel leaves alone cuts a name into words, and then a look-up sees the second word
from the mount's root on, and the first word of the source. The three look-ups are searches over
what is seen; they differ in which mounts they take.
-/

namespace Zos.Storage.Mounts

open Zos.Lib

/-! ## Escapes -/

theorem octal_some {c : Char} {digits : Text} (h : octal c = some digits) :
    '\\' ∉ digits ∧ digits.length = 3 ∧ digits.any whitespace = false := by
  unfold octal at h
  split at h
  · cases h; decide
  · split at h
    · cases h; decide
    · split at h
      · cases h; decide
      · split at h
        · cases h; decide
        · cases h

theorem octal_inj {c d : Char} {digits : Text} (hc : octal c = some digits)
    (hd : octal d = some digits) : c = d := by
  unfold octal at hc hd
  grind

theorem octal_backslash_ne : octal '\\' ≠ none := by decide

/-- The texts of a name once the characters of `done` have been put back. -/
def code (done : List Char) (c : Char) : Text := if c ∈ done then [c] else escapeChar c

theorem replaceAll_code {done : List Char} {c : Char} {digits : Text}
    (hc : octal c = some digits) (hnew : c ∉ done) (hback : '\\' ∉ done) (name : Text) :
    replaceAll ('\\' :: digits) [c] (name.flatMap (code done)) =
      name.flatMap (code (c :: done)) := by
  induction name with
  | nil => rfl
  | cons d name ih =>
      rw [List.flatMap_cons, List.flatMap_cons]
      by_cases heq : d = c
      · subst heq
        have hold : code done d = '\\' :: digits := by simp [code, hnew, escapeChar, hc]
        have hnext : code (d :: done) d = [d] := by simp [code]
        rw [hold, hnext, replaceAll_append, ih]
      · have hsame : code (c :: done) d = code done d := by simp [code, heq]
        rw [hsame, ← ih]
        -- What stands for another character has no match in it.
        cases hd : octal d with
        | none =>
            have hcode : code done d = [d] := by simp [code, escapeChar, hd]
            rw [hcode]
            refine replaceAll_append_of_notMem ?_
            intro hmem
            cases List.mem_singleton.mp hmem
            exact octal_backslash_ne hd
        | some other =>
            by_cases hdone : d ∈ done
            · have hcode : code done d = [d] := by simp [code, hdone]
              rw [hcode]
              refine replaceAll_append_of_notMem ?_
              intro hmem
              cases List.mem_singleton.mp hmem
              exact hback hdone
            · have hcode : code done d = '\\' :: other := by simp [code, hdone, escapeChar, hd]
              rw [hcode]
              refine replaceAll_append_of_ne (octal_some hd).1 ?_ ?_
              · rw [(octal_some hd).2.1, (octal_some hc).2.1]
              · intro hsame
                exact heq (octal_inj hd (hsame ▸ hc))

theorem flatMap_code_nil (name : Text) : name.flatMap (code []) = escape name := by
  have hcode : code [] = escapeChar := by
    funext c
    simp [code]
  rw [hcode, escape]

theorem flatMap_code_all (name : Text) : name.flatMap (code ['\\', '\n', '\t', ' ']) = name := by
  induction name with
  | nil => rfl
  | cons c name ih =>
      have hcode : code ['\\', '\n', '\t', ' '] c = [c] := by
        by_cases hmem : c ∈ ['\\', '\n', '\t', ' ']
        · exact if_pos hmem
        · have hnone : octal c = none := by
            simp only [List.mem_cons, not_or] at hmem
            simp [octal, hmem]
          rw [code, if_neg hmem, escapeChar, hnone]
      rw [List.flatMap_cons, hcode, ih]
      rfl

theorem unescape_escape (name : Text) : unescapeMountField (escape name) = name := by
  rw [unescapeMountField, ← flatMap_code_nil]
  have h₁ := replaceAll_code (show octal ' ' = some "040".toList from rfl)
    (show ' ' ∉ [] by decide) (by decide) name
  have h₂ := replaceAll_code (show octal '\t' = some "011".toList from rfl)
    (show '\t' ∉ [' '] by decide) (by decide) name
  have h₃ := replaceAll_code (show octal '\n' = some "012".toList from rfl)
    (show '\n' ∉ ['\t', ' '] by decide) (by decide) name
  have h₄ := replaceAll_code (show octal '\\' = some "134".toList from rfl)
    (show '\\' ∉ ['\n', '\t', ' '] by decide) (by decide) name
  calc
    _ = replaceAll "\\134".toList ['\\'] (replaceAll "\\012".toList ['\n']
          (replaceAll "\\011".toList ['\t'] (name.flatMap (code [' '])))) := by rw [← h₁]; rfl
    _ = replaceAll "\\134".toList ['\\'] (replaceAll "\\012".toList ['\n']
          (name.flatMap (code ['\t', ' ']))) := by rw [← h₂]; rfl
    _ = replaceAll "\\134".toList ['\\'] (name.flatMap (code ['\n', '\t', ' '])) := by
          rw [← h₃]; rfl
    _ = name.flatMap (code ['\\', '\n', '\t', ' ']) := h₄
    _ = name := flatMap_code_all name

/-! ## Words -/

theorem splitOnP_append_solid {p : Char → Bool} {front : Text} (h : ∀ c ∈ front, p c = false)
    (rest : Text) : (front ++ rest).splitOnP p = (rest.splitOnP p).modifyHead (front ++ ·) := by
  induction front with
  | nil =>
      rw [List.nil_append]
      cases rest.splitOnP p <;> rfl
  | cons c front ih =>
      have hc : p c = false := h c List.mem_cons_self
      rw [List.cons_append, List.splitOnP_cons_eq_if_modifyHead, if_neg (by simp [hc]),
        ih fun d hd => h d (List.mem_cons_of_mem c hd)]
      cases rest.splitOnP p <;> rfl

theorem splitOnP_solid {p : Char → Bool} {text : Text} (h : ∀ c ∈ text, p c = false) :
    text.splitOnP p = [text] := by
  have hsplit := splitOnP_append_solid h []
  rw [List.append_nil] at hsplit
  rw [hsplit, List.splitOnP_nil]
  simp

theorem escapeChar_solid {c : Char} (h : bare c = false) :
    ∀ d ∈ escapeChar c, whitespace d = false := by
  intro d hd
  unfold escapeChar at hd
  cases hc : octal c with
  | none =>
      rw [hc] at hd
      cases List.mem_singleton.mp hd
      simpa [bare, hc] using h
  | some digits =>
      rw [hc] at hd
      rcases List.mem_cons.mp hd with rfl | hd
      · decide
      · exact Bool.eq_false_iff.mpr (List.any_eq_false.mp (octal_some hc).2.2 d hd)

theorem escapeChar_of_bare {c : Char} (h : bare c) : escapeChar c = [c] ∧ whitespace c := by
  simp only [bare, Bool.and_eq_true, Option.isNone_iff_eq_none] at h
  exact ⟨by rw [escapeChar, h.2], h.1⟩

theorem splitOnP_escape (name : Text) :
    (escape name).splitOnP whitespace = (name.splitOnP bare).map escape := by
  induction name with
  | nil => rfl
  | cons c name ih =>
      have hcons : escape (c :: name) = escapeChar c ++ escape name := List.flatMap_cons
      rw [hcons, List.splitOnP_cons_eq_if_modifyHead]
      split
      · next hbare =>
          obtain ⟨hcode, hblank⟩ := escapeChar_of_bare hbare
          rw [hcode, List.singleton_append, List.splitOnP_cons_eq_if_modifyHead, if_pos hblank, ih]
          rfl
      · next hbare =>
          rw [splitOnP_append_solid (escapeChar_solid (Bool.eq_false_iff.mpr hbare)), ih]
          cases name.splitOnP bare with
          | nil => rfl
          | cons first rest => rfl

theorem escape_eq_nil {name : Text} : escape name = [] ↔ name = [] := by
  cases name with
  | nil => simp [escape]
  | cons c name =>
      have hne : escapeChar c ≠ [] := by
        unfold escapeChar
        split <;> simp
      simp [escape, hne]

theorem splitWhitespace_escape (name : Text) :
    splitWhitespace (escape name) = (words name).map escape := by
  rw [splitWhitespace, splitOnP_escape, words, List.filter_map]
  congr 1
  apply List.filter_congr
  intro piece _
  simp [escape_eq_nil]

theorem splitWhitespace_field (field : Field) : splitWhitespace field.text = [field.text] := by
  rw [splitWhitespace, splitOnP_solid field.solid]
  simp [field.nonempty]

theorem splitWhitespace_append (front back : Text) :
    splitWhitespace (front ++ ' ' :: back) = splitWhitespace front ++ splitWhitespace back := by
  rw [splitWhitespace, List.splitOnP_append_cons _ _ (by decide), List.filter_append]
  rfl

theorem joinFields_cons_cons (first second : Text) (rest : List Text) :
    joinFields (first :: second :: rest) = first ++ ' ' :: joinFields (second :: rest) := by
  rw [joinFields, List.intercalate_cons_cons, List.append_assoc]
  rfl

theorem splitWhitespace_joinFields {fields : List Text} (h : fields ≠ []) :
    splitWhitespace (joinFields fields) = fields.flatMap splitWhitespace := by
  induction fields with
  | nil => exact absurd rfl h
  | cons first rest ih =>
      cases rest with
      | nil => simp [joinFields]
      | cons second rest =>
          rw [joinFields_cons_cons, splitWhitespace_append, ih (by simp)]
          rfl

theorem words_ne_nil {name : Text} (h : name.head? = some '/') : words name ≠ [] := by
  cases name with
  | nil => cases h
  | cons c name =>
      cases h
      rw [words, List.splitOnP_cons_eq_if_modifyHead, if_neg (by decide)]
      cases hname : name.splitOnP bare with
      | nil => exact absurd hname (List.splitOnP_ne_nil _ _)
      | cons first rest => simp

/-! ## Lines -/

/-- A field that `split_once` does not stop at. -/
def Passed (field : Text) : Prop := ' ' ∉ field ∧ field ≠ ['-']

theorem splitOnce_cons {pattern rest : Text} {c : Char} (h : ¬ pattern <+: c :: rest) :
    splitOnce pattern (c :: rest) =
      (splitOnce pattern rest).map fun (before, after) => (c :: before, after) := by
  rw [splitOnce, if_neg (by rwa [List.isPrefixOf_iff_prefix])]

theorem splitOnce_append {front rest : Text} (h : ' ' ∉ front) :
    splitOnce " - ".toList (front ++ rest) =
      (splitOnce " - ".toList rest).map fun (before, after) => (front ++ before, after) := by
  induction front with
  | nil => simp
  | cons c front ih =>
      rw [List.mem_cons, not_or] at h
      rw [List.cons_append, splitOnce_cons, ih h.2, Option.map_map]
      · rfl
      · intro hstarts
        exact h.1 (List.cons_prefix_cons.mp hstarts).1

/-- The separator does not start at the field that follows. -/
theorem not_dash_prefix {field rest : Text} (h : Passed field) :
    ¬ ['-', ' '] <+: field ++ ' ' :: rest := by
  intro hstarts
  match field, h, hstarts with
  | [], _, hstarts => exact absurd (List.cons_prefix_cons.mp hstarts).1 (by decide)
  | [c], h, hstarts => exact h.2 (congrArg (fun c => [c]) (List.cons_prefix_cons.mp hstarts).1.symm)
  | c :: d :: field, h, hstarts =>
      have hspace := (List.cons_prefix_cons.mp (List.cons_prefix_cons.mp hstarts).2).1
      exact h.1 (hspace ▸ by simp)

theorem splitOnce_joinFields {fields : List Text} {rest : Text} (hne : fields ≠ [])
    (h : ∀ field ∈ fields, Passed field) :
    splitOnce " - ".toList (joinFields fields ++ " - ".toList ++ rest) =
      some (joinFields fields, rest) := by
  induction fields with
  | nil => exact absurd rfl hne
  | cons first more ih =>
      have hfirst := h first List.mem_cons_self
      cases more with
      | nil =>
          have hjoin : joinFields [first] = first := List.intercalate_singleton
          rw [hjoin, List.append_assoc, splitOnce_append hfirst.1]
          show Option.map _ (some ([], rest)) = _
          simp
      | cons second more =>
          have hmore := ih (by simp) fun field hfield => h field (List.mem_cons_of_mem _ hfield)
          have hsecond := h second (by simp)
          rw [joinFields_cons_cons, List.append_assoc, List.append_assoc,
            splitOnce_append hfirst.1, List.cons_append, splitOnce_cons, ← List.append_assoc, hmore]
          · rfl
          · -- The separator would have to be the next field.
            have htext : ∃ tail, joinFields (second :: more) ++ (" - ".toList ++ rest) =
                second ++ ' ' :: tail := by
              cases more with
              | nil => exact ⟨'-' :: ' ' :: rest, by simp [joinFields]⟩
              | cons third more =>
                  rw [joinFields_cons_cons, List.append_assoc]
                  exact ⟨_, rfl⟩
            obtain ⟨tail, htext⟩ := htext
            intro hstarts
            rw [htext] at hstarts
            exact not_dash_prefix hsecond (List.cons_prefix_cons.mp hstarts).2

theorem mem_escape {name : Text} {c : Char} (h : c ∈ escape name) :
    whitespace c = false ∨ bare c = true := by
  obtain ⟨d, _, hc⟩ := List.mem_flatMap.mp h
  by_cases hbare : bare d
  · rw [(escapeChar_of_bare hbare).1] at hc
    cases List.mem_singleton.mp hc
    exact .inr hbare
  · exact .inl (escapeChar_solid (Bool.eq_false_iff.mpr hbare) c hc)

theorem escape_passed {name : Text} (h : name.head? = some '/') : Passed (escape name) := by
  refine ⟨fun hspace => ?_, ?_⟩
  · exact absurd (mem_escape hspace) (by decide)
  · cases name with
    | nil => cases h
    | cons c name =>
        cases h
        have hcons : escape ('/' :: name) = '/' :: escape name := List.flatMap_cons
        rw [hcons]
        simp

theorem Field.notMem (field : Field) {c : Char} (h : whitespace c) : c ∉ field.text := by
  intro hmem
  rw [field.solid c hmem] at h
  cases h

theorem Field.passed (field : Field) : Passed field.text :=
  ⟨field.notMem (by decide), field.notDash⟩

theorem Mount.left_passed (m : Mount) : ∀ field ∈ m.left, Passed field := by
  intro field hfield
  simp only [Mount.left, List.mem_append, List.mem_cons, List.mem_map, List.not_mem_nil,
    or_false] at hfield
  rcases hfield with (rfl | rfl | rfl | rfl | rfl | rfl) | ⟨more, _, rfl⟩
  · exact m.id.passed
  · exact m.parent.passed
  · exact m.device.passed
  · exact escape_passed m.rootAbsolute
  · exact escape_passed m.pointAbsolute
  · exact m.options.passed
  · exact more.passed

/-- What a look-up reads of a mount. -/
theorem mountFields_line (m : Mount) : ∃ source,
    mountFields m.line = some (m.id.text, escape m.seenPoint, source) ∧
      unescapeMountField source = m.seenSource := by
  have hleft : splitWhitespace (joinFields m.left) =
      m.id.text :: m.parent.text :: m.device.text ::
        ((words m.root).map escape ++ ((words m.point).map escape ++
          (m.options.text :: m.optional.map Field.text).flatMap splitWhitespace)) := by
    rw [splitWhitespace_joinFields (by simp [Mount.left])]
    simp [Mount.left, splitWhitespace_field, splitWhitespace_escape]
  have hright : splitWhitespace (joinFields m.right) =
      m.fsType.text :: ((words m.source).map escape ++ [m.superOptions.text]) := by
    rw [splitWhitespace_joinFields (by simp [Mount.right])]
    simp [Mount.right, splitWhitespace_field, splitWhitespace_escape]
  obtain ⟨firstPoint, morePoints, hpoint⟩ :=
    List.exists_cons_of_ne_nil (words_ne_nil m.pointAbsolute)
  obtain ⟨firstRoot, moreRoots, hroot⟩ := List.exists_cons_of_ne_nil (words_ne_nil m.rootAbsolute)
  rw [mountFields, Mount.line, splitOnce_joinFields (by simp [Mount.left]) m.left_passed,
    Option.bind_some]
  dsimp only
  rw [hleft, hright, hroot, hpoint]
  have hseenPoint : m.seenPoint = (moreRoots ++ firstPoint :: morePoints).headD [] := by
    rw [Mount.seenPoint, hroot, hpoint]
    cases moreRoots <;> rfl
  rw [hseenPoint]
  cases hsource : words m.source with
  | nil =>
      refine ⟨m.superOptions.text, ?_, by rw [Mount.seenSource, hsource]; rfl⟩
      cases moreRoots <;> rfl
  | cons first more =>
      refine ⟨escape first, ?_, by rw [unescape_escape, Mount.seenSource, hsource]; rfl⟩
      cases moreRoots <;> rfl

theorem newline_notMem_line (m : Mount) : '\n' ∉ m.line := by
  have hjoin {fields : List Text} (h : ∀ field ∈ fields, '\n' ∉ field) :
      '\n' ∉ joinFields fields := by
    induction fields with
    | nil => simp [joinFields]
    | cons first rest ih =>
        have hrest := ih fun field hfield => h field (List.mem_cons_of_mem _ hfield)
        cases rest with
        | nil => simpa [joinFields] using h first List.mem_cons_self
        | cons second rest =>
            rw [joinFields_cons_cons]
            simp only [List.mem_append, List.mem_cons, not_or]
            exact ⟨h first List.mem_cons_self, by decide, hrest⟩
  have hescape (name : Text) : '\n' ∉ escape name := fun hmem =>
    absurd (mem_escape hmem) (by decide)
  have hfield (field : Field) : '\n' ∉ field.text := field.notMem (by decide)
  have hleft : '\n' ∉ joinFields m.left := hjoin (by simp [Mount.left, hescape, hfield])
  have hright : '\n' ∉ joinFields m.right := hjoin (by simp [Mount.right, hescape, hfield])
  simp [Mount.line, hleft, hright]

theorem stripReturn_line (m : Mount) : stripReturn m.line = m.line := by
  have hlast : m.line.getLast? = m.superOptions.text.getLast? := by
    have hline : ∃ front, m.line = front ++ m.superOptions.text :=
      ⟨joinFields m.left ++ " - ".toList ++ m.fsType.text ++ ' ' :: escape m.source ++ [' '],
        by simp [Mount.line, Mount.right, joinFields, List.intercalate_cons_cons]⟩
    obtain ⟨front, hline⟩ := hline
    rw [hline, List.getLast?_append_of_ne_nil _ m.superOptions.nonempty]
  rw [stripReturn, if_neg]
  rw [hlast]
  intro hreturn
  exact m.superOptions.notMem (by decide) (List.mem_of_getLast? hreturn)

theorem splitOn_mountinfo (table : List Mount) :
    (mountinfo table).splitOn '\n' = table.map Mount.line ++ [[]] := by
  induction table with
  | nil => rfl
  | cons m table ih =>
      have hcons : mountinfo (m :: table) = m.line ++ '\n' :: mountinfo table := by
        simp [mountinfo]
      rw [hcons, List.splitOn, List.splitOnP_append_cons _ _ (by simp), ← List.splitOn,
        ← List.splitOn, ih, List.splitOn_eq_singleton (newline_notMem_line m)]
      rfl

theorem lines_mountinfo (table : List Mount) : lines (mountinfo table) = table.map Mount.line := by
  simp only [lines, splitOn_mountinfo, List.dropLast_concat, List.getLast?_concat]
  simp [stripReturn_line]

/-! ## The three searches -/

theorem findSome?_lines {β : Type} {taken : Mount → Bool} {result : Mount → β}
    {read : Text → Option β}
    (h : ∀ m : Mount, read m.line = if taken m then some (result m) else none)
    (table : List Mount) :
    (lines (mountinfo table)).findSome? read = (table.find? taken).map result := by
  rw [lines_mountinfo]
  induction table with
  | nil => rfl
  | cons m table ih =>
      rw [List.map_cons, List.findSome?_cons, h, List.find?_cons]
      cases htaken : taken m with
      | true => rfl
      | false => exact ih

theorem findMountpoint_eq (query : Query) (table : List Mount) :
    findMountpoint query (mountinfo table) =
      seen table (fun m => query.sourceMatches m.seenSource)
        (if query.requested.any (samePath · query.root) then some query.root else none) := by
  rw [findMountpoint, seen]
  refine congrArg (· <|> _) (findSome?_lines ?_ table)
  intro m
  obtain ⟨source, hfields, hsource⟩ := mountFields_line m
  simp only [hfields, Option.bind_some, hsource, unescape_escape]

theorem map_orElse {α β : Type} (f : α → β) (x y : Option α) :
    (x <|> y).map f = (x.map f <|> y.map f) := by
  cases x <;> rfl

section Locations

variable (query : Query)

/-- The two look-ups with a mount id take a mount in the same cases. -/
theorem location_eq {read : Text → Option MountLocation}
    (h : ∀ m : Mount, read m.line =
      if query.sourceMatches m.seenSource && query.atOrBelowRoot m.seenPoint then
        some ⟨m.seenPoint, parseU64 m.id.text⟩ else none) (table : List Mount) :
    ((lines (mountinfo table)).findSome? read <|> rootLocation query).map (·.path) =
      seen table (fun m => query.sourceMatches m.seenSource && query.atOrBelowRoot m.seenPoint)
        ((rootLocation query).map (·.path)) := by
  rw [findSome?_lines h, map_orElse, Option.map_map]
  rfl

theorem photostaff_eq (table : List Mount) :
    (Photostaff.findMountpointIn query (mountinfo table)).map (·.path) =
      seen table (fun m => query.sourceMatches m.seenSource && query.atOrBelowRoot m.seenPoint)
        ((rootLocation query).map (·.path)) := by
  refine location_eq query ?_ table
  intro m
  obtain ⟨source, hfields, hsource⟩ := mountFields_line m
  obtain ⟨id, hid⟩ := Option.isSome_iff_exists.mp m.numbered
  simp only [hfields, Option.bind_some, hsource, unescape_escape, hid, Option.map_some]

theorem vodPlayer_eq (table : List Mount) :
    (VodPlayer.findMountpointIn query (mountinfo table)).map (·.path) =
      seen table (fun m => query.sourceMatches m.seenSource && query.atOrBelowRoot m.seenPoint)
        ((rootLocation query).map (·.path)) := by
  refine location_eq query ?_ table
  intro m
  obtain ⟨source, hfields, hsource⟩ := mountFields_line m
  obtain ⟨id, hid⟩ := Option.isSome_iff_exists.mp m.numbered
  simp only [hfields, Option.bind_some, hsource, unescape_escape, hid]
  cases query.sourceMatches m.seenSource <;> rfl

end Locations

theorem lookups_right_iff (lookup : Lookup) : lookup.Right ↔ lookup.WellSeen := by
  constructor
  · intro h
    exact ⟨findMountpoint_eq _ _ ▸ h.downloader, photostaff_eq _ _ ▸ h.photostaff⟩
  · intro h
    exact ⟨findMountpoint_eq _ _ ▸ h.1, photostaff_eq _ _ ▸ h.2, vodPlayer_eq _ _ ▸ h.2⟩

/-! ## Names without bare white space -/

/-- Nothing cuts the names of the mount. -/
def Mount.Clear (m : Mount) : Prop :=
  m.source ≠ [] ∧ (m.root ++ m.point ++ m.source).any bare = false

theorem words_clear {name : Text} (hne : name ≠ []) (h : ∀ c ∈ name, bare c = false) :
    words name = [name] := by
  rw [words, splitOnP_solid h]
  simp [hne]

theorem Mount.Clear.seen {m : Mount} (h : m.Clear) :
    m.seenPoint = m.point ∧ m.seenSource = m.source := by
  obtain ⟨hsource, hbare⟩ := h
  have hword {name : Text} (hne : name ≠ [])
      (hpart : ∀ c ∈ name, c ∈ m.root ++ m.point ++ m.source) : words name = [name] :=
    words_clear hne fun c hc => Bool.eq_false_iff.mpr (List.any_eq_false.mp hbare c (hpart c hc))
  have habsolute {name : Text} (h : name.head? = some '/') : name ≠ [] := by
    intro hnil
    rw [hnil] at h
    cases h
  rw [Mount.seenPoint, Mount.seenSource, hword (habsolute m.rootAbsolute) (by simp +contextual),
    hword (habsolute m.pointAbsolute) (by simp +contextual), hword hsource (by simp +contextual)]
  exact ⟨rfl, rfl⟩

theorem find?_clear {table : List Mount} (h : ∀ m ∈ table, m.Clear) (test : Text → Text → Bool) :
    (table.find? fun m => test m.seenSource m.seenPoint).map Mount.seenPoint =
      (table.find? fun m => test m.source m.point).map Mount.point := by
  induction table with
  | nil => rfl
  | cons m table ih =>
      obtain ⟨hpoint, hsource⟩ := (h m List.mem_cons_self).seen
      rw [List.find?_cons, List.find?_cons, hpoint, hsource]
      cases test m.source m.point with
      | true => exact congrArg some hpoint
      | false => exact ih fun m hm => h m (List.mem_cons_of_mem _ hm)

/-- Without bare white space the look-ups of the photo service and the player are right, and that
of the downloader exactly where the first mount of the source, wherever it is, has the mount point
that is asked for. -/
theorem lookups_of_clear (lookup : Lookup) (h : ∀ m ∈ lookup.table, m.Clear) :
    (Photostaff.findMountpointIn lookup.query (mountinfo lookup.table)).map (·.path) =
      some lookup.first.point ∧
    (VodPlayer.findMountpointIn lookup.query (mountinfo lookup.table)).map (·.path) =
      some lookup.first.point ∧
    (findMountpoint lookup.query (mountinfo lookup.table) = some lookup.first.point ↔
      (lookup.table.find? fun m => lookup.query.sourceMatches m.source).map Mount.point =
        some lookup.first.point) := by
  have hsource : (lookup.table.find? fun m => lookup.query.sourceMatches m.source).isSome := by
    rw [List.find?_isSome]
    exact ⟨lookup.first, by simp [Lookup.table], lookup.found.1⟩
  have hfirst : lookup.table.find? (fun m => lookup.query.sourceMatches m.source &&
      lookup.query.atOrBelowRoot m.point) = some lookup.first := by
    rw [List.find?_eq_some_iff_append]
    refine ⟨by simpa [Query.Finds] using lookup.found, lookup.before, lookup.after, rfl, ?_⟩
    intro m hm
    rw [Bool.not_eq_true', Bool.eq_false_iff]
    intro hboth
    exact lookup.unfound m hm (by simpa [Query.Finds] using hboth)
  have hboth := find?_clear h fun source point =>
    lookup.query.sourceMatches source && lookup.query.atOrBelowRoot point
  obtain ⟨m, hm⟩ := Option.isSome_iff_exists.mp hsource
  rw [photostaff_eq, vodPlayer_eq, findMountpoint_eq, seen, seen, hboth, hfirst,
    find?_clear h fun source _ => lookup.query.sourceMatches source, hm]
  simp

/-! ## The same source elsewhere -/

def field (text : Text) (h : text ≠ [] ∧ text.any whitespace = false ∧ text ≠ ['-']) : Field where
  text := text
  nonempty := h.1
  solid c hc := Bool.eq_false_iff.mpr (List.any_eq_false.mp h.2.1 c hc)
  notDash := h.2.2

/-- `/dev/md0` at a mount point. -/
def poolMount (point : Text) (h : point.head? = some '/') : Mount where
  id := field ['7'] (by decide)
  numbered := by decide
  parent := field ['1'] (by decide)
  device := field "9:0".toList (by decide)
  root := ['/']
  rootAbsolute := rfl
  point := point
  pointAbsolute := h
  options := field "rw".toList (by decide)
  optional := []
  fsType := field "ext4".toList (by decide)
  source := "/dev/md0".toList
  superOptions := field "rw".toList (by decide)

def mountedTwice : Lookup where
  query := ⟨"/dev/md0".toList, "/nas".toList, fun _ => none⟩
  before := [poolMount "/mnt".toList rfl]
  first := poolMount "/nas/a".toList rfl
  after := []
  found := by decide
  unfound := by decide

theorem lookups_of_clear_twice :
    (Photostaff.findMountpointIn mountedTwice.query (mountinfo mountedTwice.table)).map (·.path) =
      some "/nas/a".toList :=
  (lookups_of_clear mountedTwice (by unfold Mount.Clear; decide)).1

theorem other_mount_is_returned :
    findMountpoint mountedTwice.query (mountinfo mountedTwice.table) = some "/mnt".toList ∧
      ¬ mountedTwice.Right := by
  have hresult : findMountpoint mountedTwice.query (mountinfo mountedTwice.table) =
      some "/mnt".toList := by
    rw [findMountpoint_eq]
    decide
  refine ⟨hresult, ?_⟩
  intro h
  have hright := h.downloader
  rw [hresult] at hright
  exact absurd hright (by decide)

end Zos.Storage.Mounts
