import Mathlib.Data.List.Pairwise
import Mathlib.Data.List.Sort

/-!
# Minimal covers

Given a partial order `r` ("is the same as or above"), the minimal cover of a list is the sorted
list of its topmost elements. It is determined by the set of elements, and it can be kept up to
date one element at a time: an element that is covered already changes nothing, another one takes
the place of what is below it.
-/

namespace Zos.Lib

theorem exists_map_eq {α β : Type} {f : β → α} {source : List β} {l : List α}
    (h : ∀ y ∈ l, ∃ p ∈ source, f p = y) :
    ∃ kept : List β, kept.map f = l ∧ ∀ p ∈ kept, p ∈ source := by
  induction l with
  | nil => exact ⟨[], rfl, nofun⟩
  | cons y l ih =>
      obtain ⟨p, hp, hpy⟩ := h y List.mem_cons_self
      obtain ⟨kept, hkept, hsource⟩ := ih fun z hz => h z (List.mem_cons_of_mem y hz)
      refine ⟨p :: kept, by rw [List.map_cons, hpy, hkept], ?_⟩
      intro q hq
      rcases List.mem_cons.mp hq with rfl | hq
      · exact hp
      · exact hsource q hq

structure MinimalCover {α : Type} (le r : α → α → Prop) (fed cover : List α) : Prop where
  sorted : cover.Pairwise le
  separate : cover.Pairwise fun x y => ¬r x y ∧ ¬r y x
  covers : ∀ x ∈ fed, ∃ y ∈ cover, r y x
  fed : ∀ y ∈ cover, y ∈ fed

namespace MinimalCover

variable {α : Type} {le r : α → α → Prop} {fed cover : List α}

theorem nil : MinimalCover le r [] [] := ⟨.nil, .nil, nofun, nofun⟩

/-- An element that is covered already. -/
theorem skip (h : MinimalCover le r fed cover) {x y : α} (hy : y ∈ cover) (hyx : r y x) :
    MinimalCover le r (fed ++ [x]) cover where
  sorted := h.sorted
  separate := h.separate
  covers z hz := by
    rcases List.mem_append.mp hz with hz | hz
    · exact h.covers z hz
    · rw [List.mem_singleton.mp hz]
      exact ⟨y, hy, hyx⟩
  fed z hz := List.mem_append_left _ (h.fed z hz)

/-- The elements of a cover as what they were before `f`. -/
theorem of_map {β : Type} {f : β → α} {fed : List β} (h : MinimalCover le r (fed.map f) cover) :
    ∃ kept : List β, cover = kept.map f ∧
      MinimalCover (fun p q => le (f p) (f q)) (fun p q => r (f p) (f q)) fed kept := by
  obtain ⟨kept, hkept, hfed⟩ := exists_map_eq fun y hy => List.mem_map.mp (h.fed y hy)
  subst hkept
  refine ⟨kept, rfl, List.pairwise_map.mp h.sorted, List.pairwise_map.mp h.separate, ?_, hfed⟩
  intro p hp
  obtain ⟨y, hy, hyp⟩ := h.covers (f p) (List.mem_map_of_mem hp)
  obtain ⟨q, hq, rfl⟩ := List.mem_map.mp hy
  exact ⟨q, hq, hyp⟩

theorem eq_of_related (h : MinimalCover le r fed cover) {x y : α} (hx : x ∈ cover)
    (hy : y ∈ cover) (hxy : r x y) : x = y := by
  have : Std.Symm fun x y => ¬r x y ∧ ¬r y x := ⟨fun _ _ hsep => hsep.symm⟩
  by_contra hne
  exact (h.separate.forall hx hy hne).1 hxy

variable [IsPartialOrder α r]

theorem nodup (h : MinimalCover le r fed cover) : cover.Nodup := by
  refine h.separate.imp ?_
  rintro x _ hsep rfl
  exact hsep.1 (refl x)

/-- The elements of a minimal cover are the topmost ones. -/
theorem mem_iff (h : MinimalCover le r fed cover) (x : α) :
    x ∈ cover ↔ x ∈ fed ∧ ∀ y ∈ fed, r y x → y = x := by
  constructor
  · intro hx
    refine ⟨h.fed x hx, ?_⟩
    intro y hy hyx
    obtain ⟨z, hz, hzy⟩ := h.covers y hy
    have hzx : z = x := h.eq_of_related hz hx (IsTrans.trans _ _ _ hzy hyx)
    exact antisymm hyx (hzx ▸ hzy)
  · intro ⟨hx, htop⟩
    obtain ⟨y, hy, hyx⟩ := h.covers x hx
    rwa [← htop y (h.fed y hy) hyx]

/-- Neither the order of the elements nor their repetition matters. -/
theorem unique [Std.Antisymm le] {fed' cover' : List α} (h : MinimalCover le r fed cover)
    (h' : MinimalCover le r fed' cover') (hsame : ∀ x, x ∈ fed ↔ x ∈ fed') : cover = cover' := by
  have hmem : ∀ x, x ∈ cover ↔ x ∈ cover' := by
    intro x
    rw [h.mem_iff, h'.mem_iff]
    simp only [hsame]
  exact ((List.perm_ext_iff_of_nodup h.nodup h'.nodup).mpr hmem).eq_of_pairwise'
    h.sorted h'.sorted

/-- Another element takes the place of what is below it. -/
theorem insert [DecidableRel r] (h : MinimalCover le r fed cover) {x : α} {cover' : List α}
    (hx : ∀ y ∈ cover, ¬r y x) (hsorted : cover'.Pairwise le)
    (hperm : cover'.Perm (cover.filter (fun y => ¬r x y) ++ [x])) :
    MinimalCover le r (fed ++ [x]) cover' where
  sorted := hsorted
  separate := by
    refine hperm.symm.pairwise (List.pairwise_append.mpr ⟨h.separate.filter _, ?_, ?_⟩) ?_
    · exact List.pairwise_singleton ..
    · intro y hy z hz
      rw [List.mem_singleton.mp hz]
      obtain ⟨hy, hxy⟩ := List.mem_filter.mp hy
      exact ⟨hx y hy, of_decide_eq_true hxy⟩
    · exact fun hsep => hsep.symm
  covers z hz := by
    have hnew : x ∈ cover' := hperm.mem_iff.mpr (List.mem_append_right _ List.mem_cons_self)
    rcases List.mem_append.mp hz with hz | hz
    · obtain ⟨y, hy, hyz⟩ := h.covers z hz
      by_cases hxy : r x y
      · exact ⟨x, hnew, IsTrans.trans _ _ _ hxy hyz⟩
      · have hkept : y ∈ cover.filter fun y => ¬r x y :=
          List.mem_filter.mpr ⟨hy, decide_eq_true hxy⟩
        exact ⟨y, hperm.mem_iff.mpr (List.mem_append_left _ hkept), hyz⟩
    · rw [List.mem_singleton.mp hz]
      exact ⟨x, hnew, refl x⟩
  fed z hz := by
    rcases List.mem_append.mp (hperm.mem_iff.mp hz) with hz | hz
    · exact List.mem_append_left _ (h.fed z (List.mem_of_mem_filter hz))
    · exact List.mem_append_right _ hz

end MinimalCover

end Zos.Lib
