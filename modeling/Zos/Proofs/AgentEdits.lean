import Zos.Agent.Edit

/-!
# Edits as templates

An edit is meant to put exactly its new text in the place of the first occurrence of its old
text. The tool expands the new text first. A text that has none of the four patterns of a
template is its own expansion, so edits with such texts do what they are meant to in every file;
for any other new text there are a file and an old text with which its edit does something else.
-/

namespace Zos.Agent

/-- The replacement an edit asks for. -/
def literal (content : Text) (edit : Edit) : Option Text :=
  if edit.oldText = [] then none
  else (content.dropInfix? edit.oldText).map fun split => split.1 ++ edit.newText ++ split.2

def literals (content : Text) (edits : List Edit) : Option Text := edits.foldlM literal content

/-- After each edit the content is the one asked for, and nothing else is written. -/
structure Literal (relativePath : String) (content : Text) (edits : List Edit) : Prop where
  computed : ∀ n, (buildEditPreview relativePath content (edits.take n)).toOption =
    literals content (edits.take n)
  unwritten : ∀ n, literals content (edits.take n) = none → ∀ approved shown written,
    execute relativePath approved shown content (edits.take n) ≠ .ok (some written)

/-- No dollar sign of the text stands before another one, an ampersand, a backquote or a quote. -/
def Plain (newText : Text) : Prop :=
  ∀ next ∈ [dollar, 0x26, 0x60, 0x27], ¬ [dollar, next] <:+: newText

variable {relativePath : String} {content : Text} {edit : Edit} {edits : List Edit}
  {before matched after newText : Text}

/-! ## Plain texts -/

theorem Plain.tail {unit : UInt16} (h : Plain (unit :: newText)) : Plain newText :=
  fun next hnext hinfix => h next hnext (List.infix_cons hinfix)

/-- A unit that begins no pattern leaves a plain text plain. -/
theorem Plain.cons {unit next : UInt16} {template : Text} (h : Plain (next :: template))
    (hfirst : unit = dollar → next ∉ [dollar, 0x26, 0x60, 0x27]) :
    Plain (unit :: next :: template) := by
  intro other hother hinfix
  rcases List.infix_cons_iff.mp hinfix with hprefix | hinfix
  · obtain ⟨hunit, hrest⟩ := List.cons_prefix_cons.mp hprefix
    obtain ⟨hnext, -⟩ := List.cons_prefix_cons.mp hrest
    exact hfirst hunit.symm (hnext ▸ hother)
  · exact h other hother hinfix

theorem getSubstitution_plain (h : Plain newText) :
    getSubstitution before matched after newText = newText := by
  -- a pattern at the front would be one of the text
  have hfront : ∀ {unit next : UInt16} {template : Text}, ¬ unit ≠ dollar →
      Plain (unit :: next :: template) → next ∉ [dollar, 0x26, 0x60, 0x27] :=
    fun {_ _ template} hunit h hnext => h _ hnext ⟨[], template, by rw [not_not.mp hunit]; rfl⟩
  fun_induction getSubstitution before matched after newText with
  | case1 unit next template _ ih => rw [ih h.tail]
  | case2 unit template hunit => exact absurd (by simp) (hfront hunit h)
  | case3 unit template hunit => exact absurd (by simp) (hfront hunit h)
  | case4 unit template hunit => exact absurd (by simp) (hfront hunit h)
  | case5 unit template hunit => exact absurd (by simp) (hfront hunit h)
  | case6 unit next template _ _ _ _ _ ih => rw [ih h.tail]
  | case7 => rfl

/-- With nothing around the match, a text that is not plain gets shorter, or at least as long as
the match. -/
theorem length_getSubstitution (matched newText : Text) : Plain newText ∨
    (getSubstitution [] matched [] newText).length < newText.length ∨
    matched.length ≤ (getSubstitution [] matched [] newText).length := by
  have hself : ∀ {template : Text}, Plain template →
      (getSubstitution [] matched [] template).length = template.length :=
    fun h => by rw [getSubstitution_plain h]
  fun_induction getSubstitution [] matched [] newText with
  | case1 unit next template hunit ih =>
      rcases ih with hplain | hlength
      · exact Or.inl (hplain.cons fun h => absurd h hunit)
      · exact Or.inr (by simp only [List.length_cons] at *; omega)
  | case3 unit template _ _ ih =>
      simp only [List.length_append, List.length_cons]
      omega
  | case6 unit next template _ hdollar hmatch hbefore hafter ih =>
      rcases ih with hplain | hlength
      · exact Or.inl (hplain.cons fun _ => by simp [hdollar, hmatch, hbefore, hafter])
      · exact Or.inr (by simp only [List.length_cons] at *; omega)
  | case7 template hshort =>
      refine Or.inl fun next _ hinfix => ?_
      obtain ⟨front, rest, rfl⟩ := hinfix
      cases front with
      | nil => exact hshort _ _ _ rfl
      | cons unit front =>
          cases front with
          | nil => exact hshort _ _ _ rfl
          | cons => exact hshort _ _ _ rfl
  | _ =>
      rename_i ih
      refine Or.inr ?_
      rcases ih with hplain | hlength
      · have := hself hplain
        simp only [List.nil_append, List.length_cons]
        omega
      · simp only [List.nil_append, List.length_cons]
        omega

theorem getSubstitution_ne (hplain : ¬ Plain newText)
    (hlength : newText.length < matched.length) :
    getSubstitution [] matched [] newText ≠ newText := by
  intro heq
  rcases length_getSubstitution matched newText with h | h | h
  · exact hplain h
  · rw [heq] at h
    exact Nat.lt_irrefl _ h
  · rw [heq] at h
    omega

/-! ## One edit -/

theorem applyEdit_found (hne : edit.oldText ≠ [])
    (h : content.dropInfix? edit.oldText = some (before, after)) :
    applyEdit relativePath content edit = .ok (before ++
      getSubstitution before edit.oldText after edit.newText ++ after) := by
  simp [applyEdit, hne, includes, replace, h, pure, Except.pure]

theorem literal_found (hne : edit.oldText ≠ [])
    (h : content.dropInfix? edit.oldText = some (before, after)) :
    literal content edit = some (before ++ edit.newText ++ after) := by
  simp [literal, hne, h]

theorem dropInfix?_front (oldText rest : Text) :
    (oldText ++ rest).dropInfix? oldText = some ([], rest) :=
  List.dropInfix?_eq_some_iff.mpr ⟨⟨oldText, by simp⟩, fun _ _ _ _ _ => Nat.zero_le _⟩

theorem applyEdit_plain (relativePath : String) (content : Text) (h : Plain edit.newText) :
    (applyEdit relativePath content edit).toOption = literal content edit := by
  by_cases hne : edit.oldText = []
  · simp [applyEdit, literal, hne]
    rfl
  · cases hsplit : content.dropInfix? edit.oldText with
    | some split =>
        rw [applyEdit_found hne hsplit, literal_found hne hsplit, getSubstitution_plain h]
        rfl
    | none =>
        simp [applyEdit, literal, hne, includes, hsplit]
        rfl

/-! ## All edits -/

theorem buildEditPreview_plain (h : ∀ edit ∈ edits, Plain edit.newText) :
    (buildEditPreview relativePath content edits).toOption = literals content edits := by
  induction edits generalizing content with
  | nil => rfl
  | cons edit edits ih =>
      have hedit := applyEdit_plain relativePath content (h edit List.mem_cons_self)
      rw [buildEditPreview, literals, List.foldlM_cons, List.foldlM_cons, ← hedit]
      cases applyEdit relativePath content edit with
      | error message => rfl
      | ok next => exact ih fun edit hedit => h edit (List.mem_cons_of_mem _ hedit)

/-- What is written is the content computed from the file as it was read last. -/
theorem execute_written {approved : Bool} {shown fresh written : Text}
    (h : execute relativePath approved shown fresh edits = .ok (some written)) :
    buildEditPreview relativePath fresh edits = .ok written := by
  unfold execute at h
  cases hempty : edits.isEmpty with
  | true =>
      rw [hempty] at h
      cases h
  | false =>
      rw [hempty] at h
      cases hshown : buildEditPreview relativePath shown edits with
      | error message =>
          rw [hshown] at h
          cases h
      | ok _ =>
          rw [hshown] at h
          cases approved with
          | false => cases h
          | true =>
              cases hfresh : buildEditPreview relativePath fresh edits with
              | error message =>
                  rw [hfresh] at h
                  cases h
              | ok content =>
                  rw [hfresh] at h
                  cases h
                  rfl

theorem not_computed_of_expanded (hne : edit.oldText ≠ [])
    (h : content.dropInfix? edit.oldText = some (before, after))
    (hdiffer : getSubstitution before edit.oldText after edit.newText ≠ edit.newText) :
    ∃ n, (buildEditPreview relativePath content ((edit :: edits).take n)).toOption ≠
      literals content ((edit :: edits).take n) := by
  refine ⟨1, fun heq => hdiffer ?_⟩
  rw [List.take_succ_cons, List.take_zero, buildEditPreview, literals, List.foldlM_cons,
    List.foldlM_cons, literal_found hne h, applyEdit_found hne h] at heq
  exact List.append_cancel_left (List.append_cancel_right (Option.some.inj heq))

/-- In a file that is long enough the edits before a text that is not plain can each take one
unit, and the edit with that text all that is left. -/
theorem exists_not_computed (relativePath : String) {newTexts : List Text}
    (hplain : ¬ Plain newText) (hmem : newText ∈ newTexts) (content : Text)
    (hlength : newTexts.length + newText.length < content.length) :
    ∃ edits : List Edit, edits.map Edit.newText = newTexts ∧ ∃ n,
      (buildEditPreview relativePath content (edits.take n)).toOption ≠
        literals content (edits.take n) := by
  induction newTexts generalizing content with
  | nil => cases hmem
  | cons first newTexts ih =>
      rw [List.length_cons] at hlength
      by_cases hfirst : first = newText
      · subst hfirst
        have hne : content ≠ [] := fun h => by rw [h] at hlength; cases hlength
        have hfound := dropInfix?_front content []
        rw [List.append_nil] at hfound
        have hlong : first.length < content.length := by omega
        refine ⟨⟨content, first⟩ :: newTexts.map (Edit.mk []), by simp [Function.comp_def],
          not_computed_of_expanded hne hfound (getSubstitution_ne hplain hlong)⟩
      · have hmem := (List.mem_cons.mp hmem).resolve_left (Ne.symm hfirst)
        cases content with
        | nil => exact absurd hlength (by simp)
        | cons unit content =>
            obtain ⟨edits, rfl, n, hdiffer⟩ := ih hmem (first ++ content) (by
              simp only [List.length_append, List.length_cons] at *
              omega)
            have hfound := dropInfix?_front [unit] content
            refine ⟨⟨[unit], first⟩ :: edits, rfl, ?_⟩
            by_cases hexpanded : getSubstitution [] [unit] content first = first
            · refine ⟨n + 1, ?_⟩
              rw [List.take_succ_cons, buildEditPreview, literals, List.foldlM_cons,
                List.foldlM_cons, literal_found (by simp) hfound,
                applyEdit_found (by simp) hfound, hexpanded]
              exact hdiffer
            · exact not_computed_of_expanded (by simp) hfound hexpanded

theorem literal_iff (newTexts : List Text) :
    (∀ relativePath content (edits : List Edit), edits.map Edit.newText = newTexts →
      Literal relativePath content edits) ↔ ∀ newText ∈ newTexts, Plain newText := by
  constructor
  · intro h newText hmem
    by_contra hplain
    obtain ⟨edits, hedits, n, hdiffer⟩ := exists_not_computed "" hplain hmem
      (List.replicate (newTexts.length + newText.length + 1) 0) (by simp)
    exact hdiffer ((h _ _ edits hedits).computed n)
  · rintro hplain relativePath content edits rfl
    have hcomputed : ∀ n, (buildEditPreview relativePath content (edits.take n)).toOption =
        literals content (edits.take n) := fun n =>
      buildEditPreview_plain fun edit hedit =>
        hplain _ (List.mem_map_of_mem (List.mem_of_mem_take hedit))
    refine ⟨hcomputed, fun n hnone approved shown written hwritten => ?_⟩
    have hpreview := hcomputed n
    rw [execute_written hwritten, hnone] at hpreview
    cases hpreview

/-- The text `a` is to become two dollar signs; it becomes one. -/
theorem buildEditPreview_not_literal :
    ∃ relativePath content edits, ¬ Literal relativePath content edits := by
  refine ⟨"a.txt", [0x61], [⟨[0x61], [dollar, dollar]⟩], fun h => ?_⟩
  exact absurd (h.computed 1) (by decide)

end Zos.Agent
