import Zos.Indexer.SearchTerms

/-!
# What Chinese, Japanese and Korean queries find

The index has the single characters and the pairs of a token, and the query asks for a token that
begins with a whole run. So a run of three characters or more is found only where a word begins
with it; and since other characters are left out before pairs are made, a pair is found that does
not stand in the text.

A row matches a term if the term begins a word of the body, or a word of the normalised body, or
is listed among the characters and pairs. This is read off the text of the terms by
`words_glue` and `runs_flatMap`; the rest is about what an occurrence of the query gives.
-/

namespace Zos.Indexer.SearchTerms

open Zos.Lib

variable {u : Unicode}

/-! ## The terms as they are written -/

theorem byteLength_append (a b : Text) : byteLength (a ++ b) = byteLength a + byteLength b := by
  simp [byteLength]

theorem byteLength_pos {text : Text} (h : text ≠ []) : 0 < byteLength text := by
  obtain ⟨c, rest, rfl⟩ := List.exists_cons_of_ne_nil h
  have hc := c.utf8Size_pos
  simp only [byteLength, List.map_cons, List.sum_cons]
  omega

theorem glue_append (output : Text) (front back : List Text) :
    glue output (front ++ back) = glue (glue output front) back := by
  induction front generalizing output with
  | nil => rfl
  | cons term rest ih => exact ih _

theorem byteLength_le_glue (output : Text) (terms : List Text) :
    byteLength output ≤ byteLength (glue output terms) := by
  induction terms generalizing output with
  | nil => exact Nat.le_refl _
  | cons term rest ih =>
      refine Nat.le_trans ?_ (ih _)
      split
      · next hnil => simp [hnil, byteLength]
      · rw [byteLength_append]
        exact Nat.le_add_right ..

theorem byteLength_glue_singleton (output term : Text) :
    byteLength (glue output [term]) =
      byteLength output + (if output = [] then 0 else 1) + byteLength term := by
  simp only [glue]
  split
  · next hnil =>
      rw [hnil]
      exact (Nat.zero_add _).symm
  · rw [byteLength_append, Nat.add_assoc]
    rfl

/-- A term is pushed as long as all of them stay within the limit. -/
theorem pushTerm_eq {limit : Nat} {output term : Text} (hterm : term ≠ [])
    (h : byteLength (glue output [term]) ≤ limit) :
    pushTerm limit output term = glue output [term] := by
  have hpos := byteLength_pos hterm
  rw [byteLength_glue_singleton] at h
  unfold pushTerm
  rw [if_neg (by simp only [hterm, false_or]; omega)]
  simp only [glue]
  rw [if_neg (by omega)]
  by_cases hnil : output = []
  · simp [hnil]
  · simp [hnil]

theorem foldl_pushTerm {limit : Nat} {terms : List Text} (hterms : ∀ term ∈ terms, term ≠ [])
    (output : Text) (h : byteLength (glue output terms) ≤ limit) :
    terms.foldl (pushTerm limit) output = glue output terms := by
  induction terms generalizing output with
  | nil => rfl
  | cons term rest ih =>
      have hfirst : byteLength (glue output [term]) ≤ limit :=
        Nat.le_trans (byteLength_le_glue _ rest) h
      rw [List.foldl_cons, pushTerm_eq (hterms term (List.mem_cons_self ..)) hfirst]
      exact ih (fun t ht => hterms t (List.mem_cons_of_mem _ ht)) _ h

theorem cjkTerms_ne_nil {text term : Text} (h : term ∈ cjkTerms text) : term ≠ [] := by
  fun_induction cjkTerms text with
  | case1 => cases h
  | case2 c => simp_all
  | case3 c next rest ih =>
      rcases List.mem_cons.mp h with rfl | h
      · simp
      · rcases List.mem_cons.mp h with rfl | h
        · simp
        · exact ih h

theorem pushTokens_eq {limit : Nat} {tokens : List Text} (htokens : ∀ token ∈ tokens, token ≠ [])
    (output : Text) (h : byteLength (glue output (tokens.flatMap termsOf)) ≤ limit) :
    pushTokens limit output tokens = glue output (tokens.flatMap termsOf) := by
  induction tokens generalizing output with
  | nil => rfl
  | cons token rest ih =>
      have htoken := htokens token (List.mem_cons_self ..)
      have hterms : ∀ term ∈ termsOf token, term ≠ [] := by
        intro term hterm
        rcases List.mem_cons.mp hterm with rfl | hterm
        · exact htoken
        · exact cjkTerms_ne_nil hterm
      rw [List.flatMap_cons, glue_append] at h ⊢
      have hfirst := Nat.le_trans (byteLength_le_glue _ _) h
      rw [pushTokens, foldl_pushTerm hterms output hfirst]
      split
      · -- the limit is reached, so nothing is left to be pushed
        next hfull =>
          cases rest with
          | nil => rfl
          | cons next rest =>
              have hpos := byteLength_pos (htokens next (by simp))
              have hnext := byteLength_glue_singleton (glue output (termsOf token)) next
              have hle : byteLength (glue (glue output (termsOf token)) [next]) ≤ limit :=
                Nat.le_trans (byteLength_le_glue _
                  (cjkTerms (next.filter isCjk) ++ rest.flatMap termsOf)) h
              omega
      · exact ih (fun t ht => htokens t (List.mem_cons_of_mem _ ht)) _ h

theorem normalizedTerms_eq (body : Body u) : normalizedTerms u body.text body.limit =
    glue [] ((splitWhitespace u (u.nfkcLower body.text)).flatMap termsOf) :=
  pushTokens_eq (fun _ htoken => (mem_runs htoken).1) [] body.uncut

/-! ## The words of the terms -/

theorem words_glue (output : Text) (terms : List Text) :
    words u (glue output terms) = words u output ++ terms.flatMap (words u) := by
  have hspace : ¬ u.alnum ' ' = true := fun h =>
    Bool.noConfusion ((u.alnum_visible ' ' h).symm.trans u.space)
  induction terms generalizing output with
  | nil => simp [glue]
  | cons term rest ih =>
      rw [glue, ih, List.flatMap_cons, ← List.append_assoc]
      congr 1
      split
      · next hnil =>
          rw [hnil]
          rfl
      · exact runs_append_cons _ _ hspace

theorem mem_cjkTerms {text term : Text} : term ∈ cjkTerms text ↔
    (∃ c ∈ text, term = [c]) ∨ ∃ c d, [c, d] <:+: text ∧ term = [c, d] := by
  fun_induction cjkTerms text with
  | case1 => simp
  | case2 c =>
      have hshort : ¬ ∃ x y, [x, y] <:+: [c] ∧ term = [x, y] := by
        rintro ⟨x, y, hinside, -⟩
        exact absurd hinside.length_le (by simp)
      simp [hshort]
  | case3 c next rest ih =>
      have hpair {x y : Char} : [x, y] <:+: c :: next :: rest ↔
          (x = c ∧ y = next) ∨ [x, y] <:+: next :: rest := by
        rw [List.infix_cons_iff, List.cons_prefix_cons, List.cons_prefix_cons]
        simp
      rw [List.mem_cons, List.mem_cons, ih]
      constructor
      · rintro (rfl | rfl | ⟨x, hx, rfl⟩ | ⟨x, y, hxy, rfl⟩)
        · exact .inl ⟨c, by simp, rfl⟩
        · exact .inr ⟨c, next, hpair.mpr (.inl ⟨rfl, rfl⟩), rfl⟩
        · exact .inl ⟨x, List.mem_cons_of_mem _ hx, rfl⟩
        · exact .inr ⟨x, y, hpair.mpr (.inr hxy), rfl⟩
      · rintro (⟨x, hx, rfl⟩ | ⟨x, y, hxy, rfl⟩)
        · rcases List.mem_cons.mp hx with rfl | hx
          · exact .inl rfl
          · exact .inr (.inr (.inl ⟨x, hx, rfl⟩))
        · rcases hpair.mp hxy with ⟨rfl, rfl⟩ | hxy
          · exact .inr (.inl rfl)
          · exact .inr (.inr (.inr ⟨x, y, hxy, rfl⟩))

/-! ## What is found -/

/-- A term that is a beginning of a word. -/
structure Term (u : Unicode) (term : Text) : Prop where
  ne_nil : term ≠ []
  alnum : ∀ c ∈ term, u.alnum c = true
  cjk : ∀ c ∈ term, isCjk c = true

theorem Term.words {term : Text} (h : Term u term) : words u term = [term] := by
  rw [SearchTerms.words, runs_of_all h.alnum, if_neg h.ne_nil]

/-- The beginning of a word of a character or a pair is a character or the pair. -/
theorem prefix_of_cjkTerm {text entry word term : Text} (hterm : Term u term)
    (hentry : entry ∈ cjkTerms text) (hword : word ∈ words u entry) (hstarts : term <+: word) :
    (∃ c ∈ text, term = [c]) ∨ ∃ c d, [c, d] <:+: text ∧ term = [c, d] := by
  have hinside : term <:+: entry := hstarts.isInfix.trans (mem_runs hword).2.2
  obtain ⟨c, rest, rfl⟩ := List.exists_cons_of_ne_nil hterm.ne_nil
  rcases mem_cjkTerms.mp hentry with ⟨x, hx, rfl⟩ | ⟨x, y, hxy, rfl⟩
  · have hlength := hinside.length_le
    cases rest with
    | cons _ _ => simp at hlength
    | nil =>
        have hc : c ∈ [x] := hinside.subset (by simp)
        exact .inl ⟨c, (List.mem_singleton.mp hc) ▸ hx, rfl⟩
  · cases rest with
    | nil => exact .inl ⟨c, hxy.subset (hinside.subset (by simp)), rfl⟩
    | cons d rest =>
        have heq := hinside.eq_of_length_le (by simp)
        exact .inr ⟨x, y, hxy, heq⟩

theorem mem_splitWhitespace {text : Text} {c : Char} (hc : c ∈ text)
    (hvisible : u.whitespace c = false) : ∃ token ∈ splitWhitespace u text, c ∈ token := by
  have hsingle : [c] <:+: text := by
    obtain ⟨front, back, rfl⟩ := List.append_of_mem hc
    exact ⟨front, back, by simp⟩
  obtain ⟨token, htoken, hinside⟩ := exists_run_of_infix (p := (!u.whitespace ·)) (by simp)
    (by simp [hvisible]) hsingle
  exact ⟨token, htoken, hinside.subset (by simp)⟩

/-- A row has a token that begins with the term. -/
theorem found_iff (body : Body u) {term : Text} (hterm : Term u term) :
    (∃ token ∈ words u body.text ++ words u (normalizedTerms u body.text body.limit),
      term <+: token) ↔ body.Begins term ∨ body.Listed term := by
  have hvisible : ∀ c ∈ term, u.whitespace c = false := fun c hc =>
    u.alnum_visible c (hterm.alnum c hc)
  have hwords : words u (normalizedTerms u body.text body.limit) =
      ((splitWhitespace u (u.nfkcLower body.text)).flatMap termsOf).flatMap (words u) := by
    rw [normalizedTerms_eq, words_glue]
    rfl
  have hnormalized : (splitWhitespace u (u.nfkcLower body.text)).flatMap (words u) =
      words u (u.nfkcLower body.text) :=
    runs_flatMap (fun c hc => by simpa using u.alnum_visible c hc) _
  rw [hwords]
  constructor
  · rintro ⟨word, hword, hstarts⟩
    rcases List.mem_append.mp hword with hword | hword
    · exact .inl ⟨word, List.mem_append_left _ hword, hstarts⟩
    · obtain ⟨entry, hentry, hword⟩ := List.mem_flatMap.mp hword
      obtain ⟨token, htoken, hentry⟩ := List.mem_flatMap.mp hentry
      rcases List.mem_cons.mp hentry with rfl | hentry
      · refine .inl ⟨word, List.mem_append_right _ ?_, hstarts⟩
        rw [← hnormalized]
        exact List.mem_flatMap.mpr ⟨entry, htoken, hword⟩
      · refine .inr ((prefix_of_cjkTerm hterm hentry hword hstarts).imp ?_ ?_)
        · rintro ⟨c, hc, rfl⟩
          exact ⟨c, (mem_runs htoken).2.2.subset (List.mem_of_mem_filter hc), rfl⟩
        · rintro ⟨c, d, hcd, rfl⟩
          exact ⟨token, htoken, c, d, hcd, rfl⟩
  · have hlisted {token : Text} (htoken : token ∈ splitWhitespace u (u.nfkcLower body.text))
        (hentry : term ∈ cjkTerms (token.filter isCjk)) :
        ∃ word ∈ words u body.text ++
          ((splitWhitespace u (u.nfkcLower body.text)).flatMap termsOf).flatMap (words u),
          term <+: word := by
      refine ⟨term, List.mem_append_right _ (List.mem_flatMap.mpr ⟨term, List.mem_flatMap.mpr
        ⟨token, htoken, List.mem_cons_of_mem _ hentry⟩, ?_⟩), List.prefix_rfl⟩
      rw [hterm.words]
      exact List.mem_singleton_self _
    rintro (⟨word, hword, hstarts⟩ | ⟨c, hc, rfl⟩ | ⟨token, htoken, c, d, hcd, rfl⟩)
    · refine ⟨word, ?_, hstarts⟩
      rcases List.mem_append.mp hword with hword | hword
      · exact List.mem_append_left _ hword
      · rw [← hnormalized] at hword
        obtain ⟨token, htoken, hword⟩ := List.mem_flatMap.mp hword
        exact List.mem_append_right _ (List.mem_flatMap.mpr ⟨token, List.mem_flatMap.mpr
          ⟨token, htoken, List.mem_cons_self ..⟩, hword⟩)
    · obtain ⟨token, htoken, hmem⟩ := mem_splitWhitespace hc (hvisible c (by simp))
      exact hlisted htoken (mem_cjkTerms.mpr (.inl ⟨c, List.mem_filter.mpr
        ⟨hmem, hterm.cjk c (by simp)⟩, rfl⟩))
    · exact hlisted htoken (mem_cjkTerms.mpr (.inr ⟨c, d, hcd, rfl⟩))

/-! ## Queries -/

theorem CjkQuery.term_of_mem (query : CjkQuery) {term : Text} (h : term ∈ query.terms u) :
    Term u term := by
  obtain ⟨hne, halnum, hinside⟩ := mem_runs h
  exact ⟨hne, halnum, fun c hc => query.cjk c (hinside.subset hc)⟩

theorem CjkQuery.runs_eq_terms (query : CjkQuery) :
    runs (fun c => u.alnum c || c == '_') query.text = query.terms u := by
  refine runs_congr fun c hc => ?_
  have hc' : c ≠ '_' := by
    rintro rfl
    exact absurd (query.cjk '_' hc) (by decide)
  simp [hc']

theorem matches_iff (body : Body u) (query : CjkQuery) :
    body.Matches query ↔ query.terms u ≠ [] ∧
      ∀ term ∈ query.terms u, body.Begins term ∨ body.Listed term := by
  unfold Body.Matches matchesRow literalFtsQuery
  rw [query.runs_eq_terms]
  cases hterms : query.terms u with
  | nil => simp
  | cons first rest =>
      simp only [List.all_eq_true, List.any_eq_true, List.isPrefixOf_iff_prefix]
      rw [← hterms]
      refine Iff.trans (forall₂_congr fun term hterm =>
        found_iff body (query.term_of_mem hterm)) ?_
      simp [hterms]

/-- Characters and pairs of a query that occurs are listed. -/
theorem listed_of_contains {body : Body u} {query : CjkQuery} (h : body.Contains query)
    {term : Text} (hterm : term ∈ query.terms u) (hshort : term.length < 3) :
    body.Listed term := by
  have hinside : term <:+: query.text := (mem_runs hterm).2.2
  have hcjk := (query.term_of_mem hterm).cjk
  match term, (mem_runs hterm).1, hshort with
  | [c], _, _ => exact .inl ⟨c, h.subset (hinside.subset (by simp)), rfl⟩
  | [c, d], _, _ =>
      -- a query without blanks lies within one token
      obtain ⟨token, htoken, hquery⟩ := exists_run_of_infix (p := (!u.whitespace ·)) query.ne_nil
        (fun c hc => by simpa using u.cjk_visible c (query.cjk c hc)) h
      refine .inr ⟨token, htoken, c, d, ?_, rfl⟩
      have hfilter := (hinside.trans hquery).filter isCjk
      rwa [List.filter_eq_self.mpr hcjk] at hfilter

theorem cjk_search_iff (u : Unicode) (body : Body u) (query : CjkQuery) :
    (body.Matches query ↔ body.Contains query) ↔
      (body.Contains query → query.terms u ≠ [] ∧
        ∀ term ∈ query.terms u, 3 ≤ term.length → body.Begins term) ∧
      (¬ body.Contains query → query.terms u = [] ∨
        ∃ term ∈ query.terms u, ¬ body.Begins term ∧ ¬ body.Listed term) := by
  rw [matches_iff]
  by_cases h : body.Contains query
  · simp only [h, iff_true, not_true, true_implies, false_implies, and_true]
    refine and_congr_right fun _ => forall₂_congr fun term hterm => ?_
    constructor
    · rintro (hbegins | hlisted) hlong
      · exact hbegins
      · rcases hlisted with ⟨c, -, rfl⟩ | ⟨token, -, c, d, -, rfl⟩ <;> simp at hlong
    · intro hlong
      by_cases hlength : 3 ≤ term.length
      · exact .inl (hlong hlength)
      · exact .inr (listed_of_contains h hterm (by omega))
  · simp only [h, iff_false, not_false_eq_true, true_implies, false_implies, true_and, not_and]
    rw [or_iff_not_imp_left]
    simp only [not_forall, not_or, exists_prop, ne_eq]

/-! ## A query from the middle of a word -/

/-- The tables of Unicode, as far as the texts below are concerned. -/
def plain : Unicode where
  alnum c := isCjk c || c.isAlphanum
  whitespace c := c == ' '
  nfkcLower := id
  alnum_visible c h := by
    rw [beq_eq_false_iff_ne]
    rintro rfl
    exact absurd h (by decide)
  space := rfl
  cjk_visible c h := by
    rw [beq_eq_false_iff_ne]
    rintro rfl
    exact absurd h (by decide)

def projectPlan : Body plain := ⟨['项', '目', '计', '划'], 100, by decide⟩

def middle : CjkQuery := ⟨['目', '计', '划'], by simp, List.all_eq_true.mp (by decide)⟩

/-- Three characters from the middle of four are not found. -/
theorem middle_is_missed : ¬ (projectPlan.Matches middle ↔ projectPlan.Contains middle) := by
  intro h
  exact absurd (h.mpr ⟨['项'], [], rfl⟩) (by unfold Body.Matches; decide)

end Zos.Indexer.SearchTerms
