import Mathlib.Logic.Basic

/-!
# Runs of a guarded step function

A model is a step function `step s a`: the state after action `a`, or `none`
when `a` is not possible in `s`. Every choice the environment makes, the
order of the steps included, is part of the action, so the step function
stays executable and a schedule is a list of actions.

`Reach` carries a condition on the steps. A safety theorem is stated about
the states `Reach step C init` contains: the states of the runs that start in
`init` and take each action in a state where `C` allows it. With
`C := fun _ _ => True` these are all runs.
-/

namespace Zos.Lib

variable {σ α : Type}

/-- The states of the runs that start in `init` and whose steps all meet `C`
in the state they are taken in. -/
inductive Reach (step : σ → α → Option σ) (C : σ → α → Prop)
    (init : σ → Prop) : σ → Prop where
  | init {s : σ} (hs : init s) : Reach step C init s
  | step {s s' : σ} {a : α} (hs : Reach step C init s) (hc : C s a)
      (ha : step s a = some s') : Reach step C init s'

/-- No condition at all. -/
def anyStep (_ : σ) (_ : α) : Prop := True

/-- The state a schedule leads to, if no action of it is refused. -/
def run (step : σ → α → Option σ) (s : σ) : List α → Option σ
  | [] => some s
  | a :: as => (step s a).bind fun s' => run step s' as

section

variable {step : σ → α → Option σ} {C : σ → α → Prop} {init : σ → Prop}

/-- What holds at the start and is kept by every allowed step holds in every
state reached. -/
theorem Reach.invariant {I : σ → Prop} (hinit : ∀ s, init s → I s)
    (hstep : ∀ s a s', I s → C s a → step s a = some s' → I s')
    {s : σ} (h : Reach step C init s) : I s := by
  induction h with
  | init hs => exact hinit _ hs
  | step _ hc ha ih => exact hstep _ _ _ ih hc ha

/-- What every action of a schedule keeps is kept by the schedule. -/
theorem run_keeps (I : σ → Prop) {s₀ s : σ} {as : List α} (h₀ : I s₀)
    (hstep : ∀ a ∈ as, ∀ s s', I s → step s a = some s' → I s')
    (h : run step s₀ as = some s) : I s := by
  induction as generalizing s₀ with
  | nil =>
      rw [run, Option.some.injEq] at h
      exact h ▸ h₀
  | cons a as ih =>
      rw [run] at h
      cases ha : step s₀ a with
      | none => rw [ha] at h; cases h
      | some s₁ =>
          rw [ha] at h
          exact ih (hstep a List.mem_cons_self _ _ h₀ ha)
            (fun b hb => hstep b (List.mem_cons_of_mem a hb)) h

/-- A schedule of actions that `C` allows anywhere stays within the states
reached. -/
theorem Reach.of_run {s₀ s : σ} {as : List α} (h₀ : Reach step C init s₀)
    (hC : ∀ a ∈ as, ∀ s, C s a) (h : run step s₀ as = some s) :
    Reach step C init s :=
  run_keeps (Reach step C init) h₀ (fun a ha s _ hs hstep => .step hs (hC a ha s) hstep) h

theorem run_append {s₀ s : σ} {as bs : List α} (h : run step s₀ as = some s) :
    run step s₀ (as ++ bs) = run step s bs := by
  induction as generalizing s₀ with
  | nil =>
      obtain rfl : s₀ = s := Option.some.inj h
      rfl
  | cons a as ih =>
      obtain ⟨s₁, ha, hrest⟩ := Option.bind_eq_some_iff.mp h
      rw [List.cons_append, run, ha, Option.bind_some]
      exact ih hrest

/-- A schedule that is carried out and whose end state passes the test `p`. -/
theorem exists_run (step : σ → α → Option σ) (s₀ : σ) (as : List α)
    (p : σ → Bool) (h : (run step s₀ as).map p = some true) :
    ∃ s, run step s₀ as = some s ∧ p s = true := by
  cases hr : run step s₀ as with
  | none => rw [hr] at h; cases h
  | some s =>
      rw [hr, Option.map_some, Option.some.injEq] at h
      exact ⟨s, rfl, h⟩

/-- The end state of such a schedule is reached. -/
theorem Reach.exists_of_run (step : σ → α → Option σ) (s₀ : σ)
    (as : List α) (p : σ → Bool) (h : (run step s₀ as).map p = some true) :
    ∃ s, Reach step anyStep (· = s₀) s ∧ p s = true := by
  obtain ⟨s, hr, hp⟩ := exists_run step s₀ as p h
  exact ⟨s, .of_run (.init rfl) (fun _ _ _ => trivial) hr, hp⟩

/-- The steps that meet a condition which can be decided. -/
def guarded (step : σ → α → Option σ) (C : σ → α → Prop) [∀ s a, Decidable (C s a)]
    (s : σ) (a : α) : Option σ :=
  if C s a then step s a else none

/-- A schedule whose actions all meet a condition where they are taken. -/
theorem Reach.of_guarded {D : σ → α → Prop} [∀ s a, Decidable (D s a)] (hD : ∀ s a, D s a → C s a)
    {s₀ s : σ} {as : List α} (h₀ : Reach step C init s₀) (h : run (guarded step D) s₀ as = some s) :
    Reach step C init s := by
  refine run_keeps (Reach step C init) h₀ (fun a _ s s' hs ha => ?_) h
  unfold guarded at ha
  split at ha
  · next hd => exact .step hs (hD s a hd) ha
  · cases ha

end

end Zos.Lib
