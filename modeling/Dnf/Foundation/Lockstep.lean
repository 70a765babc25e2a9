import Dnf.Foundation.Effect
import Dnf.Foundation.Transition

/-!
# Runs in lockstep

Two states may agree on what a program reads and differ in the rest. Then two runs of the program end in the same way, with the same value or exception and with states that agree again. This passes from the parts of a program to the program, and from the steps of a transition system to its runs.
-/

namespace Foundation.Effect

variable {ε σ α β : Type}

/-- Two ends of runs: the same value or the same exception, in related states. -/
def SameEnd (R : σ → σ → Prop) : EStateM.Result ε σ α → EStateM.Result ε σ α → Prop
  | .ok a t, .ok b u => a = b ∧ R t u
  | .error e t, .error e' u => e = e' ∧ R t u
  | _, _ => False

/-- From related states `x` ends in the same way. -/
def Lockstep (R : σ → σ → Prop) (x : EStateM ε σ α) : Prop := ∀ s s', R s s' → SameEnd R (x s) (x s')

namespace Lockstep

variable {R : σ → σ → Prop}

theorem pure (a : α) : Lockstep (ε := ε) R (pure a) := fun _ _ h => ⟨rfl, h⟩

theorem throw (e : ε) : Lockstep (α := α) R (throw e : EStateM ε σ α) := fun _ _ h => ⟨rfl, h⟩

theorem modify {f : σ → σ} (hf : ∀ s s', R s s' → R (f s) (f s')) : Lockstep (ε := ε) R (modify f) := fun s s' h => ⟨rfl, hf s s' h⟩

theorem bind {x : EStateM ε σ β} {f : β → EStateM ε σ α} (hx : Lockstep R x) (hf : ∀ b, Lockstep R (f b)) : Lockstep R (x >>= f) := by
  intro s s' h
  have hfirst := hx s s' h
  rw [bind_apply, bind_apply]
  cases hs : x s with
  | ok b t =>
      cases hs' : x s' with
      | ok b' t' =>
          rw [hs, hs'] at hfirst
          obtain ⟨rfl, ht⟩ := hfirst
          exact hf b t t' ht
      | error e' t' =>
          rw [hs, hs'] at hfirst
          exact hfirst.elim
  | error e t =>
      cases hs' : x s' with
      | ok b' t' =>
          rw [hs, hs'] at hfirst
          exact hfirst.elim
      | error e' t' =>
          rw [hs, hs'] at hfirst
          exact hfirst

theorem tryCatch {x : EStateM ε σ α} {handler : ε → EStateM ε σ α} (hx : Lockstep R x) (hhandler : ∀ e, Lockstep R (handler e)) :
    Lockstep R (tryCatch x handler) := by
  intro s s' h
  have hfirst := hx s s' h
  rw [tryCatch_apply, tryCatch_apply]
  cases hs : x s with
  | ok b t =>
      cases hs' : x s' with
      | ok b' t' =>
          rw [hs, hs'] at hfirst
          exact hfirst
      | error e' t' =>
          rw [hs, hs'] at hfirst
          exact hfirst.elim
  | error e t =>
      cases hs' : x s' with
      | ok b' t' =>
          rw [hs, hs'] at hfirst
          exact hfirst.elim
      | error e' t' =>
          rw [hs, hs'] at hfirst
          obtain ⟨rfl, ht⟩ := hfirst
          exact hhandler e t t' ht

theorem ite {c : Prop} [Decidable c] {x y : EStateM ε σ α} (hx : Lockstep R x) (hy : Lockstep R y) : Lockstep R (if c then x else y) := by
  by_cases hc : c
  · rwa [if_pos hc]
  · rwa [if_neg hc]

/-- A part of the state that related states share may be read. -/
theorem read {γ : Type} {g : σ → γ} {f : γ → EStateM ε σ α} (hg : ∀ s s', R s s' → g s = g s') (hf : ∀ c, Lockstep R (f c)) :
    Lockstep R (get >>= fun s => f (g s)) := by
  intro s s' h
  rw [bind_apply, bind_apply, get_apply, get_apply]
  dsimp only
  rw [hg s s' h]
  exact hf _ s s' h

end Lockstep

end Foundation.Effect

namespace Foundation.System

variable {State Action : Type} {sys : System State Action} {R : State → State → Prop}

/-- Runs from related states perform the same actions. -/
theorem Run.lockstep (hstep : ∀ s s' a t, R s s' → sys.next s a = some t → ∃ t', sys.next s' a = some t' ∧ R t t')
    {s s' t : State} {actions : List Action} (hrun : sys.Run anyStep s actions t) (h : R s s') : ∃ t', sys.Run anyStep s' actions t' ∧ R t t' := by
  induction hrun generalizing s' with
  | nil s => exact ⟨s', .nil s', h⟩
  | cons _ hnext _ ih =>
      obtain ⟨u', hnext', hu⟩ := hstep _ s' _ _ h hnext
      obtain ⟨t', hrun', ht⟩ := ih hu
      exact ⟨t', .cons trivial hnext' hrun', ht⟩

end Foundation.System
