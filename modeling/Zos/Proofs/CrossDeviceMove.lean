import Zos.NasTools.CrossDevice

/-!
# What a move across devices keeps

Up to the removal of the source nothing is removed but the copy. If that removal fails halfway,
the handler removes the target, which by then holds the only copy of the files that are gone from
the source: they are lost, and the error says nothing of it. Nothing is lost exactly when no file
was removed yet, or when the removal of the target fails too and leaves those files.
-/

namespace Zos.NasTools.CrossDevice

variable {Content : Type}

/-- Every file of the tree is somewhere. -/
def Present (tree : Files Content) (places : Places Content) : Prop :=
  ∀ path content, tree path = some content → places.source path = some content ∨
    places.target path = some content ∨ places.temporary path = some content

def Complete (tree files : Files Content) : Prop :=
  ∀ path content, tree path = some content → files path = some content

/-- Nothing is lost, and the source is complete after an error that does not name both failures. -/
def Keeps (tree : Files Content) : EStateM.Result MoveError (Places Content) Unit → Prop
  | .ok _ places => Present tree places
  | .error error places => Present tree places ∧ (error ≠ .aggregate → Complete tree places.source)

/-- If the source is reached and its removal fails, no file is gone, or each file that is gone is
still in the target, whose removal failed as well. -/
def Faults.Mild (faults : Faults) (tree : Files Content) : Prop :=
  faults.cp = none → faults.rename = false → ∀ gone, faults.rmSource = some gone →
    (∀ path, gone path = true → tree path = none) ∨
    faults.rmTemporary = none ∧ ∃ also, faults.rmTarget = some also ∧
      ∀ path, gone path = true → also path = true → tree path = none

variable {tree : Files Content} {gone also : List String → Bool}

theorem without_eq_some {files : Files Content} {path : List String} {content : Content} :
    files.without gone path = some content ↔ gone path = false ∧ files path = some content := by
  unfold Files.without
  cases gone path <;> simp

/-- A tree is complete without some paths exactly if none of them is a file. -/
theorem complete_without_iff :
    Complete tree (tree.without gone) ↔ ∀ path, gone path = true → tree path = none := by
  simp only [Complete, without_eq_some, Option.eq_none_iff_forall_ne_some]
  constructor
  · intro h path hgone content hcontent
    simp [(h path content hcontent).1] at hgone
  · intro h path content hcontent
    refine ⟨Bool.eq_false_iff.mpr fun hgone => h path hgone content hcontent, hcontent⟩

theorem complete_source {places : Places Content} (h : Complete tree places.source) :
    Present tree places := fun path content hcontent => .inl (h path content hcontent)

/-- What was not removed from both is there. -/
theorem present_without_iff :
    Present tree ⟨tree.without gone, tree.without also, fun _ => none⟩ ↔
      ∀ path, gone path = true → also path = true → tree path = none := by
  simp only [Present, without_eq_some, Option.eq_none_iff_forall_ne_some]
  constructor
  · intro h path hgone halso content hcontent
    simpa [hgone, halso] using h path content hcontent
  · intro h path content hcontent
    cases hgone : gone path with
    | false => exact .inl ⟨rfl, hcontent⟩
    | true =>
        refine .inr (.inl ⟨Bool.eq_false_iff.mpr fun halso => ?_, hcontent⟩)
        exact h path hgone halso content hcontent

/-- An error that does not name both failures keeps what the source keeps. -/
theorem keeps_io_iff {places : Places Content} (h : places.source = tree.without gone) :
    Keeps tree (.error .io places) ↔ ∀ path, gone path = true → tree path = none := by
  rw [← complete_without_iff, ← h]
  refine ⟨fun hkeeps => hkeeps.2 nofun, fun hcomplete => ?_⟩
  exact ⟨complete_source hcomplete, fun _ => hcomplete⟩

theorem keeps_source {places : Places Content} (h : places.source = tree) (error : MoveError) :
    Keeps tree (.error error places) := by
  have hcomplete : Complete tree places.source := by
    rw [h]
    exact fun _ _ hcontent => hcontent
  exact ⟨complete_source hcomplete, fun _ => hcomplete⟩

/-- Nothing is lost exactly under those failures. -/
theorem movePath_keeps_iff (faults : Faults) (tree : Files Content) :
    Keeps tree (movePath faults (before tree)) ↔ faults.Mild tree := by
  obtain ⟨copying, moving, rmSource, rmTarget, rmTemporary⟩ := faults
  cases copying with
  | some copied =>
      refine iff_of_true ?_ nofun
      cases rmTemporary <;> exact keeps_source (by rfl) .io
  | none =>
      cases moving with
      | true =>
          refine iff_of_true ?_ fun _ => nofun
          cases rmTemporary <;> exact keeps_source (by rfl) .io
      | false =>
          cases rmSource with
          | none => exact iff_of_true (fun _ _ h => .inr (.inl h)) fun _ _ _ => nofun
          | some gone =>
              simp only [Faults.Mild, Option.some.injEq, forall_eq', true_imp_iff]
              cases rmTarget with
              | none => cases rmTemporary <;> exact (keeps_io_iff (by rfl)).trans (by simp)
              | some also =>
                  cases rmTemporary with
                  | some left => exact (keeps_io_iff (by rfl)).trans (by simp)
                  | none =>
                      -- the aggregate error promises no complete source
                      have hkeeps : Keeps tree (movePath ⟨none, false, some gone, some also, none⟩
                          (before tree)) ↔ _ :=
                        (and_iff_left fun h => absurd rfl h).trans present_without_iff
                      rw [hkeeps]
                      simp only [Option.some.injEq, exists_eq_left', true_and]
                      exact ⟨.inr, Or.rec (fun h path hgone _ => h path hgone) id⟩

/-- The removal of the source fails after one of its files: the target, which has the last copy,
is then removed. -/
theorem movePath_loses :
    ∃ (faults : Faults) (tree : Files Nat), ¬ Keeps tree (movePath faults (before tree)) := by
  refine ⟨⟨none, false, some (· = ["a"]), none, none⟩,
    fun path => if path = ["a"] then some 1 else none, ?_⟩
  intro h
  have hnone := (keeps_io_iff (by rfl)).mp h ["a"] (by decide)
  simp at hnone

end Zos.NasTools.CrossDevice
