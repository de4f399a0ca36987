import Zos.Indexer.Spelling
import Zos.Lib.Path

/-!
# Which paths keep their entry

The names of a path are what its text says apart from slashes and dots, so a character that is
neither is counted alike in both. With this a normaliser that returns the names of its argument has
neither trimmed a blank nor turned a backslash. The rest is that the TypeScript side strips one
`./` and nothing else: its result is the text of the names exactly if no other `.` is left.
-/

namespace Zos.Indexer.Spelling

open Zos.Lib (trimBy whiteSpace)

variable {value path : Text}

/-! ## Names -/

theorem splitOn_append_slash (front back : Text) :
    (front ++ '/' :: back).splitOn '/' = front.splitOn '/' ++ back.splitOn '/' :=
  List.splitOnP_append_cons _ _ (by simp)

theorem names_append_slash (front back : Text) :
    names (front ++ '/' :: back) = names front ++ names back := by
  rw [names, splitOn_append_slash, List.filter_append, names, names]

@[simp]
theorem names_nil : names [] = [] := by decide

@[simp]
theorem names_dot : names ['.'] = [] := by decide

theorem names_stripDot (value : Text) : names (stripDot value) = names value := by
  unfold stripDot
  split
  · next rest => exact (names_append_slash ['.'] rest).symm
  · rfl

theorem names_stripSlashes (value : Text) : names (stripSlashes value) = names value := by
  unfold stripSlashes
  induction value using List.reverseRecOn with
  | nil => rfl
  | append_singleton value c ih =>
      rw [List.rdropWhile_concat]
      split
      · next hc => rw [ih, eq_of_beq hc, names_append_slash, names_nil, List.append_nil]
      · rfl

theorem not_mem_of_mem_splitOn {segment : Text} (h : segment ∈ path.splitOn '/') :
    '/' ∉ segment := fun hslash =>
  Zos.Lib.not_of_mem_splitOnP h '/' hslash (by simp)

theorem splitOn_render {segments : List Text} (hne : segments ≠ [])
    (h : ∀ s ∈ segments, '/' ∉ s) : (render segments).splitOn '/' = segments := by
  rw [render, if_neg hne]
  exact List.splitOn_intercalate '/' h hne

theorem of_mem_names {segment : Text} (h : segment ∈ names path) :
    '/' ∉ segment ∧ segment ≠ [] ∧ segment ≠ ['.'] := by
  obtain ⟨hmem, hsegment⟩ := List.mem_filter.mp h
  exact ⟨not_mem_of_mem_splitOn hmem, by simpa using hsegment⟩

theorem names_render (path : Text) : names (render (names path)) = names path := by
  by_cases hnil : names path = []
  · rw [hnil, render, if_pos rfl, names_dot]
  · rw [names, splitOn_render hnil fun s hs => (of_mem_names hs).1, List.filter_eq_self]
    exact fun s hs => decide_eq_true (of_mem_names hs).2

/-- Of characters that are neither slash nor dot a path has as many as its names. -/
theorem sum_countP_names {p : Char → Bool} (hslash : p '/' = false) (hdot : p '.' = false)
    (path : Text) : ((names path).map (List.countP p)).sum = path.countP p := by
  have hall (segments : List Text) :
      ((segments.filter fun s => s ≠ [] ∧ s ≠ ['.']).map (List.countP p)).sum =
        (segments.map (List.countP p)).sum := by
    induction segments with
    | nil => rfl
    | cons s segments ih =>
        rw [List.filter_cons]
        split
        · rw [List.map_cons, List.map_cons, List.sum_cons, List.sum_cons, ih]
        · next hs =>
            have hzero : s.countP p = 0 := by
              by_cases hnil : s = []
              · rw [hnil, List.countP_nil]
              · have heq : s = ['.'] := by simpa [hnil] using hs
                rw [heq, List.countP_singleton, hdot]
                rfl
            rw [ih, List.map_cons, List.sum_cons, hzero, Nat.zero_add]
  rw [names, hall]
  induction path with
  | nil => rfl
  | cons c path ih =>
      rw [List.splitOn, List.splitOnP_cons_eq_if_modifyHead]
      split
      · next hc =>
          rw [eq_of_beq hc, List.map_cons, List.sum_cons, List.countP_cons, hslash, ← ih]
          exact Nat.zero_add _
      · rw [List.countP_cons, ← ih, List.splitOn]
        cases hpath : path.splitOnP (· == '/') with
        | nil => exact absurd hpath (List.splitOnP_ne_nil _ _)
        | cons first rest =>
            simp only [List.modifyHead_cons, List.map_cons, List.sum_cons, List.countP_cons]
            omega

/-! ## Trimming and backslashes -/

theorem trim_sublist (value : Text) : (trim value).Sublist value :=
  (List.rdropWhile_prefix _ _).sublist.trans (List.dropWhile_suffix _).sublist

theorem length_tidy_le (value : Text) : (tidy value).length ≤ (trim value).length := by
  have hslashes : (slashes (trim value)).length = (trim value).length := List.length_map _
  refine (List.rdropWhile_prefix _ _).length_le.trans (Nat.le_trans ?_ hslashes.le)
  unfold stripDot
  split
  · next heq =>
      rw [heq, List.length_cons, List.length_cons]
      omega
  · exact Nat.le_refl _

theorem dropWhile_eq_self_of_countP {p : Char → Bool} {text : Text}
    (h : (text.dropWhile p).countP p = text.countP p) : text.dropWhile p = text := by
  cases text with
  | nil => rfl
  | cons c text =>
      rw [List.dropWhile_cons] at h ⊢
      split
      · next hc =>
          have hle : (text.dropWhile p).countP p ≤ text.countP p :=
            (List.dropWhile_suffix p).sublist.countP_le
          rw [if_pos hc, List.countP_cons_of_pos hc] at h
          omega
      · rfl

/-- What trimming takes away are blanks. -/
theorem trim_eq_self_of_countP (h : (trim value).countP whiteSpace = value.countP whiteSpace) :
    trim value = value := by
  have hfirst : (value.dropWhile whiteSpace).countP whiteSpace ≤ value.countP whiteSpace :=
    (List.dropWhile_suffix whiteSpace).sublist.countP_le
  have hlast : (trim value).countP whiteSpace ≤ (value.dropWhile whiteSpace).countP whiteSpace :=
    (List.rdropWhile_prefix _ _).sublist.countP_le
  have hdrop := dropWhile_eq_self_of_countP (Nat.le_antisymm hfirst (h ▸ hlast))
  rw [trim, trimBy, hdrop, List.rdropWhile] at h ⊢
  rw [dropWhile_eq_self_of_countP, List.reverse_reverse]
  rw [List.countP_reverse] at h
  rw [h, List.countP_reverse]

theorem slashes_eq_self (h : '\\' ∉ value) : slashes value = value := by
  refine (List.map_congr_left fun c hc => ?_).trans (List.map_id' value)
  exact if_neg fun (heq : c = '\\') => h (heq ▸ hc)

theorem not_mem_slashes (value : Text) : '\\' ∉ slashes value := by
  intro h
  obtain ⟨c, -, hc⟩ := List.mem_map.mp h
  split at hc
  · exact absurd hc (by decide)
  · next hne => exact hne hc

theorem not_mem_tidy (value : Text) : '\\' ∉ tidy value := by
  intro h
  have hmem : '\\' ∈ stripDot (slashes (trim value)) :=
    (List.rdropWhile_prefix _ _).subset h
  refine not_mem_slashes (trim value) ?_
  unfold stripDot at hmem
  split at hmem
  · next heq =>
      rw [heq]
      exact List.mem_cons_of_mem _ (List.mem_cons_of_mem _ hmem)
  · exact hmem

/-- Paths with the same names have the same characters, apart from slashes and dots. -/
theorem countP_eq_of_names {p : Char → Bool} (hslash : p '/' = false) (hdot : p '.' = false)
    (h : names path = names value) : path.countP p = value.countP p := by
  rw [← sum_countP_names hslash hdot, h, sum_countP_names hslash hdot]

theorem not_mem_of_names (h : names path = names value) (hpath : '\\' ∉ path) :
    '\\' ∉ value := by
  have hcount := countP_eq_of_names (p := (· == '\\')) (by decide) (by decide) h
  intro hmem
  have hpos : 0 < value.countP (· == '\\') := List.countP_pos_iff.mpr ⟨_, hmem, by decide⟩
  rw [← hcount, List.countP_pos_iff] at hpos
  obtain ⟨c, hc, heq⟩ := hpos
  exact hpath (eq_of_beq heq ▸ hc)

/-! ## The normalisers -/

theorem normalizePath_ok {message : String} {result : Text}
    (h : normalizePath message value = .ok result) :
    (tidy value = [] ∨ tidy value = ['.']) ∧ result = ['.'] ∨
      tidy value ≠ ['.'] ∧ tidy value = result ∧ result ≠ [] ∧ result.head? ≠ some '/' := by
  unfold normalizePath at h
  dsimp only at h
  split at h
  · next hdot => exact .inl ⟨hdot, (Except.ok.inj h).symm⟩
  · next hdot =>
      rw [not_or] at hdot
      split at h
      · cases h
      · next hrelative =>
          rw [not_or] at hrelative
          cases h
          exact .inr ⟨hdot.2, rfl, hdot.1, hrelative.1⟩

theorem names_of_normalizePath {message : String} {result : Text}
    (h : normalizePath message value = .ok result) : names result = names (tidy value) := by
  obtain ⟨hdot | hdot, rfl⟩ | ⟨-, rfl, -⟩ := normalizePath_ok h
  · rw [hdot, names_dot, names_nil]
  · rw [hdot]
  · rfl

/-- What is accepted does not depend on the message. -/
theorem normalizePath_message {message other : String} {result : Text}
    (h : normalizePath message value = .ok result) : normalizePath other value = .ok result := by
  unfold normalizePath at h ⊢
  dsimp only at h ⊢
  split
  · next hdot => rwa [if_pos hdot] at h
  · next hdot =>
      rw [if_neg hdot] at h
      split
      · next hbad =>
          rw [if_pos hbad] at h
          cases h
      · next hbad => rwa [if_neg hbad] at h

theorem tidy_of_plain (htrim : trim value = value) (hplain : '\\' ∉ value) :
    tidy value = stripSlashes (stripDot value) := by
  rw [tidy, htrim, slashes_eq_self hplain]

theorem names_tidy (hplain : '\\' ∉ value) : names (tidy value) = names (trim value) := by
  rw [tidy, names_stripSlashes, names_stripDot,
    slashes_eq_self fun h => hplain ((trim_sublist value).subset h)]

theorem head?_of_splitOn (h : [] ∉ path.splitOn '/') : path.head? ≠ some '/' := by
  intro hhead
  obtain ⟨rest, rfl⟩ := List.head?_eq_some_iff.mp hhead
  exact h ((splitOn_append_slash [] rest).symm ▸ List.mem_cons_self)

theorem stripDot_of_splitOn (h : ['.'] ∉ path.splitOn '/') : stripDot path = path := by
  unfold stripDot
  split
  · next rest =>
      exact absurd ((splitOn_append_slash ['.'] rest).symm ▸ List.mem_cons_self) h
  · rfl

/-- A path of names only is returned as it is. -/
theorem normalizePath_of_tidy {result : Text} (htidy : tidy value = result)
    (hempty : [] ∉ result.splitOn '/') (hdot : ['.'] ∉ result.splitOn '/')
    (hparent : ['.', '.'] ∉ result.splitOn '/') (message : String) :
    normalizePath message value = .ok result := by
  rw [normalizePath, htidy, if_neg, if_neg]
  · rw [not_or]
    refine ⟨head?_of_splitOn hempty, ?_⟩
    rw [List.any_eq_true]
    rintro ⟨s, hs, heq⟩
    obtain heq | heq := Bool.or_eq_true _ _ ▸ heq
    · exact hempty (eq_of_beq heq ▸ hs)
    · exact hparent (eq_of_beq heq ▸ hs)
  · rintro (rfl | rfl)
    · exact hempty (by decide)
    · exact hdot (by decide)

theorem render_spec (path : Text) :
    render (names path) ≠ [] ∧ (render (names path)).head? ≠ some '/' := by
  unfold render
  split
  · exact ⟨List.cons_ne_nil _ _, by decide⟩
  · next hne =>
      obtain ⟨first, rest, hnames⟩ := List.exists_cons_of_ne_nil hne
      obtain ⟨hslash, hfirst, -⟩ := of_mem_names (hnames ▸ List.mem_cons_self)
      obtain ⟨c, chars, rfl⟩ := List.exists_cons_of_ne_nil hfirst
      have hhead : (['/'].intercalate (names path)).head? = some c := by
        rw [hnames]
        cases rest <;> simp [List.intercalate_cons_cons]
      rw [hhead]
      refine ⟨fun hnil => ?_, fun hc => hslash (Option.some.inj hc ▸ List.mem_cons_self)⟩
      rw [hnil] at hhead
      cases hhead

theorem normalizeCliPath_of_plain (hne : value ≠ []) (hrelative : value.head? ≠ some '/')
    (hinside : ['.', '.'] ∉ names value) (hplain : '\\' ∉ value) :
    normalizeCliPath value = .ok (render (names value)) := by
  rw [normalizeCliPath, if_neg hne]
  dsimp only
  rw [slashes_eq_self hplain, if_neg (not_or.mpr ⟨hrelative, hinside⟩)]

theorem not_mem_of_normalizeCliPath {result : Text} (h : normalizeCliPath value = .ok result) :
    '\\' ∉ result := by
  unfold normalizeCliPath at h
  split at h
  · cases h
  · dsimp only at h
    split at h
    · cases h
    · cases h
      exact not_mem_of_names (names_render _).symm (not_mem_slashes value)

/-! ## Paths that are kept -/

/-- A refusal or another spelling, which is its own. -/
structure Faithful (normalize : Text → Except String Text) (value : Text) : Prop where
  entry : ∀ result, normalize value = .ok result →
    result ≠ [] ∧ result.head? ≠ some '/' ∧ names result = names value
  again : ∀ result, normalize value = .ok result → normalize result = .ok result

structure Kept (path : EntryPath) : Prop where
  index : Faithful normalizeIndexPath path.text
  search : Faithful normalizeSearchPath path.text
  cli : Faithful normalizeCliPath path.text
  agree : ∀ a b c, normalizeIndexPath path.text = .ok a → normalizeSearchPath path.text = .ok b →
    normalizeCliPath path.text = .ok c → a = b ∧ b = c

/-- Names between slashes, without blanks at the ends; a `./` may stand before them and slashes
after them. -/
def Clean (value : Text) : Prop :=
  let core := stripSlashes (stripDot value)
  '\\' ∉ value ∧ (core = [] ∨ core = ['.'] ∨
    trim core = core ∧ [] ∉ core.splitOn '/' ∧ ['.'] ∉ core.splitOn '/')

theorem EntryPath.not_mem_names (path : EntryPath) : ['.', '.'] ∉ names path.text :=
  fun h => path.inside (List.mem_of_mem_filter h)

theorem EntryPath.cli (path : EntryPath) (hplain : '\\' ∉ path.text) :
    normalizeCliPath path.text = .ok (render (names path.text)) :=
  normalizeCliPath_of_plain path.nonempty path.relative path.not_mem_names hplain

theorem EntryPath.cli_faithful (path : EntryPath) (hplain : '\\' ∉ path.text) :
    Faithful normalizeCliPath path.text := by
  obtain ⟨hne, hhead⟩ := render_spec path.text
  have hnames := names_render path.text
  constructor
  · intro result hresult
    cases hresult.symm.trans (path.cli hplain)
    exact ⟨hne, hhead, hnames⟩
  · intro result hresult
    cases hresult.symm.trans (path.cli hplain)
    have hinside : ['.', '.'] ∉ names (render (names path.text)) := by
      rw [hnames]
      exact path.not_mem_names
    rw [normalizeCliPath_of_plain hne hhead hinside (not_mem_of_names hnames.symm hplain), hnames]

theorem dropWhile_eq_self_iff {p : Char → Bool} {text : Text} :
    text.dropWhile p = text ↔ ∀ c ∈ text.head?, p c = false := by
  rw [List.dropWhile_eq_self_iff]
  cases text <;> simp

theorem trim_eq_self_iff : trim value = value ↔
    (∀ c ∈ value.head?, whiteSpace c = false) ∧ ∀ c ∈ value.getLast?, whiteSpace c = false := by
  rw [← List.head?_reverse, ← dropWhile_eq_self_iff, ← dropWhile_eq_self_iff]
  constructor
  · intro h
    have hlength := (List.rdropWhile_prefix whiteSpace (value.dropWhile whiteSpace)).length_le
    rw [← trimBy, ← trim, h] at hlength
    have hdrop := (List.dropWhile_suffix whiteSpace).eq_of_length_le hlength
    rw [trim, trimBy, hdrop, List.rdropWhile, List.reverse_eq_iff] at h
    exact ⟨hdrop, h⟩
  · rintro ⟨hfirst, hlast⟩
    rw [trim, trimBy, hfirst, List.rdropWhile, hlast, List.reverse_reverse]

theorem stripDot_cases (value : Text) :
    stripDot value = value ∨ value = '.' :: '/' :: stripDot value := by
  unfold stripDot
  split
  · exact .inr rfl
  · exact .inl rfl

/-- If no blank is at an end between `./` and the last slashes, none is at an end of the whole. -/
theorem trim_of_core (hne : stripSlashes (stripDot value) ≠ [])
    (h : trim (stripSlashes (stripDot value)) = stripSlashes (stripDot value)) :
    trim value = value := by
  obtain ⟨hfirst, hlast⟩ := trim_eq_self_iff.mp h
  have hsplit : stripSlashes (stripDot value) ++ (stripDot value).rtakeWhile (· == '/') =
      stripDot value := List.rdropWhile_append_rtakeWhile ..
  have hhead : ∀ c ∈ (stripDot value).head?, whiteSpace c = false := by
    rw [← hsplit, List.head?_append_of_ne_nil _ hne]
    exact hfirst
  have hend : ∀ c ∈ (stripDot value).getLast?, whiteSpace c = false := by
    intro c hc
    rw [← hsplit, List.getLast?_append] at hc
    obtain hc | ⟨-, hc⟩ := Option.or_eq_some_iff.mp hc
    · have hslash := List.mem_rtakeWhile_imp (List.mem_of_getLast? hc)
      rw [eq_of_beq hslash]
      decide
    · exact hlast c hc
  have hlong : stripDot value ≠ [] := fun hnil => hne (by rw [hnil]; rfl)
  rw [trim_eq_self_iff]
  obtain heq | heq := stripDot_cases value
  · rw [heq] at hhead hend
    exact ⟨hhead, hend⟩
  · rw [heq]
    refine ⟨fun c hc => ?_, fun c hc => hend c ?_⟩
    · cases hc
      decide
    · rwa [List.getLast?_cons_cons, List.getLast?_cons_of_ne_nil hlong] at hc

theorem Clean.trim (h : Clean value) : Spelling.trim value = value := by
  obtain ⟨-, hcore⟩ := h
  by_cases hne : stripSlashes (stripDot value) = [] ∨ stripSlashes (stripDot value) = ['.']
  · -- nothing but slashes and dots
    have hnames : names value = names [] := by
      rw [← names_stripDot, ← names_stripSlashes]
      obtain hne | hne := hne <;> rw [hne]
      rw [names_dot, names_nil]
    have hcount : value.countP whiteSpace = 0 :=
      countP_eq_of_names (by decide) (by decide) hnames
    refine trim_eq_self_of_countP (Nat.le_antisymm ?_ (hcount ▸ Nat.zero_le _))
    exact (trim_sublist value).countP_le
  · rw [not_or] at hne
    obtain hnil | hdot | ⟨htrim, -⟩ := hcore
    · exact absurd hnil hne.1
    · exact absurd hdot hne.2
    · exact trim_of_core hne.1 htrim

/-- What the TypeScript side returns for a clean path. -/
theorem Clean.normalizePath {path : EntryPath} (h : Clean path.text) (message : String) :
    Spelling.normalizePath message path.text = .ok (render (names path.text)) ∧
      Spelling.normalizePath message (render (names path.text)) =
        .ok (render (names path.text)) := by
  have htidy := tidy_of_plain h.trim h.1
  have hnames : names (stripSlashes (stripDot path.text)) = names path.text := by
    rw [names_stripSlashes, names_stripDot]
  have hdots (hcore : tidy path.text = [] ∨ tidy path.text = ['.']) :
      render (names path.text) = ['.'] := by
    rw [← hnames, ← htidy]
    obtain hcore | hcore := hcore <;> rw [hcore] <;> decide
  obtain ⟨-, hcore⟩ := h
  rw [← htidy, ← or_assoc] at hcore
  obtain hcore | ⟨htrim, hempty, hdot⟩ := hcore
  · rw [hdots hcore, Spelling.normalizePath, if_pos hcore]
    exact ⟨rfl, rfl⟩
  · have hsplit : (tidy path.text).splitOn '/' = names path.text := by
      rw [← hnames, ← htidy, names, eq_comm, List.filter_eq_self]
      refine fun s hs => decide_eq_true ⟨?_, ?_⟩
      · exact fun heq => hempty (heq ▸ hs)
      · exact fun heq => hdot (heq ▸ hs)
    have hrender : render (names path.text) = tidy path.text := by
      rw [← hsplit, render, if_neg (List.splitOn_ne_nil _ _), List.intercalate_splitOn]
    have hparent : ['.', '.'] ∉ (tidy path.text).splitOn '/' := hsplit ▸ path.not_mem_names
    have hagain : tidy (tidy path.text) = tidy path.text := by
      rw [tidy_of_plain htrim (not_mem_tidy _), stripDot_of_splitOn hdot]
      exact List.rdropWhile_idempotent ..
    rw [hrender]
    exact ⟨normalizePath_of_tidy rfl hempty hdot hparent message,
      normalizePath_of_tidy hagain hempty hdot hparent message⟩

theorem Clean.faithful {path : EntryPath} (h : Clean path.text) (message : String) :
    Faithful (Spelling.normalizePath message) path.text := by
  obtain ⟨hvalue, hagain⟩ := h.normalizePath message
  obtain ⟨hne, hhead⟩ := render_spec path.text
  constructor
  · intro result hresult
    cases hresult.symm.trans hvalue
    exact ⟨hne, hhead, names_render path.text⟩
  · intro result hresult
    cases hresult.symm.trans hvalue
    exact hagain

theorem faithful_of_refused {normalize : Text → Except String Text}
    (h : ∀ result, normalize value ≠ .ok result) : Faithful normalize value :=
  ⟨fun result hresult => absurd hresult (h result), fun result hresult => absurd hresult (h result)⟩

/-- A path that the TypeScript side keeps, in agreement with the command line, is clean. -/
theorem clean_of_faithful {path : EntryPath} {message : String} {result : Text}
    (hresult : normalizePath message path.text = .ok result)
    (h : Faithful (normalizePath message) path.text)
    (hcli : '\\' ∉ path.text → result = render (names path.text)) : Clean path.text := by
  have hentry := (h.entry result hresult).2.2
  have hagain := h.again result hresult
  have htidy := names_of_normalizePath hresult
  have hplain : '\\' ∉ path.text :=
    not_mem_of_names (htidy.symm.trans hentry) (not_mem_tidy _)
  have htrim : trim path.text = path.text := by
    refine trim_eq_self_of_countP (countP_eq_of_names (by decide) (by decide) ?_)
    rw [← names_tidy hplain, ← htidy, hentry]
  refine ⟨hplain, ?_⟩
  rw [← tidy_of_plain htrim hplain, ← or_assoc]
  obtain ⟨hdots, -⟩ | ⟨hdot, rfl, hnil, -⟩ := normalizePath_ok hresult
  · exact .inl hdots
  · have hnames : names path.text ≠ [] := by
      intro hnone
      rw [hcli hplain, hnone] at hdot
      exact hdot rfl
    have hsplit : (tidy path.text).splitOn '/' = names path.text := by
      rw [hcli hplain, splitOn_render hnames fun s hs => (of_mem_names hs).1]
    refine .inr ⟨?_, ?_, ?_⟩
    · -- the second time nothing was trimmed, or the result would be shorter
      obtain ⟨-, hself⟩ | ⟨-, hself, -⟩ := normalizePath_ok hagain
      · exact absurd hself hdot
      · refine (trim_sublist _).eq_of_length_le ?_
        calc (tidy path.text).length = (tidy (tidy path.text)).length := by rw [hself]
          _ ≤ (trim (tidy path.text)).length := length_tidy_le _
    · exact fun hmem => (of_mem_names (hsplit ▸ hmem)).2.1 rfl
    · exact fun hmem => (of_mem_names (hsplit ▸ hmem)).2.2 rfl

theorem normalizers_keep_iff (path : EntryPath) : Kept path ↔
    Clean path.text ∨ (∀ result, normalizeIndexPath path.text ≠ .ok result) ∧
      ('\\' ∈ path.text → ∀ result, normalizeCliPath path.text ≠ .ok result) := by
  constructor
  · intro h
    cases hresult : normalizeIndexPath path.text with
    | error message =>
        refine .inr ⟨nofun, fun hbackslash result hcli => ?_⟩
        exact not_mem_of_names (h.cli.entry result hcli).2.2 (not_mem_of_normalizeCliPath hcli)
          hbackslash
    | ok result =>
        refine .inl (clean_of_faithful hresult h.index fun hplain => ?_)
        obtain ⟨-, hagree⟩ := h.agree _ _ _ hresult (normalizePath_message hresult)
          (path.cli hplain)
        exact hagree
  · rintro (h | ⟨hindex, hcli⟩)
    · refine ⟨h.faithful _, h.faithful _, path.cli_faithful h.1, fun a b c ha hb hc => ?_⟩
      cases ha.symm.trans (h.normalizePath _).1
      cases hb.symm.trans (h.normalizePath _).1
      cases hc.symm.trans (path.cli h.1)
      exact ⟨rfl, rfl⟩
    · have hsearch : ∀ result, normalizeSearchPath path.text ≠ .ok result :=
        fun result hresult => hindex result (normalizePath_message hresult)
      refine ⟨faithful_of_refused hindex, faithful_of_refused hsearch, ?_,
        fun a _ _ ha => absurd ha (hindex a)⟩
      by_cases hbackslash : '\\' ∈ path.text
      · exact faithful_of_refused (hcli hbackslash)
      · exact path.cli_faithful hbackslash

def blankPath : EntryPath := ⟨" a".toList, by decide, by decide, by decide, by decide⟩

/-- A blank in front of a name is trimmed, and the name is that of another entry. -/
theorem blank_is_trimmed : ¬ Kept blankPath := by
  intro h
  have hentry := (h.index.entry ['a'] (by decide)).2.2
  exact absurd hentry (by decide)

end Zos.Indexer.Spelling
