import Mathlib.Data.List.Basic

/-!
# Pre- and postconditions of computations that may fail

`Spec P x Q E`: started in a state with `P`, the computation `x` returns in a state with
`Q`, or fails in one with `E`, which may depend on the error. The state is kept when a
computation fails, so a handler starts where its body stopped. `Triple P x Q E` is the same
where the error does not matter.
-/

namespace Zos.Lib

variable {ε σ α β : Type}

def Spec (P : σ → Prop) (x : EStateM ε σ α) (Q : α → σ → Prop) (E : ε → σ → Prop) : Prop :=
  ∀ s, P s → match x s with
    | .ok a s' => Q a s'
    | .error e s' => E e s'

section Spec

variable {P P' : σ → Prop} {x : EStateM ε σ α} {f : α → EStateM ε σ β}
  {Q Q' : α → σ → Prop} {R : β → σ → Prop} {E F : ε → σ → Prop} {s s' : σ}

theorem Spec.error {e : ε} (h : Spec P x Q E) (hs : P s) (hx : x s = .error e s') : E e s' := by
  have hrun := h s hs
  rw [hx] at hrun
  exact hrun

theorem Spec.mono (h : Spec P x Q E) (hP : ∀ s, P' s → P s) (hQ : ∀ a s, Q a s → Q' a s)
    (hE : ∀ e s, E e s → F e s) : Spec P' x Q' F := by
  intro s hs
  have hrun := h s (hP s hs)
  split at hrun
  · next a s' hx => exact hQ a s' hrun
  · next e s' hx => exact hE e s' hrun

theorem Spec.bind (hx : Spec P x Q E) (hf : ∀ a, Spec (Q a) (f a) R E) :
    Spec P (x >>= f) R E := by
  intro s hs
  have hrun := hx s hs
  simp only [Bind.bind, EStateM.bind]
  cases hfirst : x s with
  | ok a s₁ =>
      rw [hfirst] at hrun
      exact hf a s₁ hrun
  | error e s₁ =>
      rw [hfirst] at hrun
      exact hrun

end Spec

def Triple (P : σ → Prop) (x : EStateM ε σ α) (Q : α → σ → Prop) (E : σ → Prop) : Prop :=
  Spec P x Q fun _ => E

variable {P P' : σ → Prop} {x : EStateM ε σ α} {f : α → EStateM ε σ β}
  {Q Q' : α → σ → Prop} {R : β → σ → Prop} {E E' : σ → Prop} {s s' : σ}

theorem Triple.error {e : ε} (h : Triple P x Q E) (hs : P s) (hx : x s = .error e s') : E s' :=
  Spec.error h hs hx

theorem Triple.mono (h : Triple P x Q E) (hP : ∀ s, P' s → P s) (hQ : ∀ a s, Q a s → Q' a s)
    (hE : ∀ s, E s → E' s) : Triple P' x Q' E' :=
  Spec.mono h hP hQ fun _ => hE

theorem Triple.pure {a : α} (h : ∀ s, P s → Q a s) :
    Triple P (Pure.pure a : EStateM ε σ α) Q E :=
  h

theorem Triple.modify {f : σ → σ} {Q : Unit → σ → Prop} (h : ∀ s, P s → Q () (f s)) :
    Triple P (modify f : EStateM ε σ Unit) Q E :=
  h

theorem Triple.bind (hx : Triple P x Q E) (hf : ∀ a, Triple (Q a) (f a) R E) :
    Triple P (x >>= f) R E :=
  Spec.bind hx hf

theorem Triple.forM_keeps {f : α → EStateM ε σ PUnit} {l : List α}
    (h : ∀ a ∈ l, Triple P (f a) (fun _ => P) E) : Triple P (l.forM f) (fun _ => P) E := by
  induction l with
  | nil => exact Triple.pure fun _ h => h
  | cons a l ih =>
      obtain ⟨ha, hl⟩ := List.forall_mem_cons.mp h
      exact Triple.bind ha fun _ => ih hl

/-- A program that goes on with the state it has read. -/
theorem Triple.get_bind {f : σ → EStateM ε σ β}
    (h : ∀ s, P s → Triple (fun s' => s' = s) (f s) R E) : Triple P (get >>= f) R E :=
  fun s hs => h s hs s rfl

end Zos.Lib
