import Mathlib.Logic.Basic
import Mathlib.Data.List.Basic

/-!
# Programs with a state and exceptions

A program is an `EStateM ε σ α`: it ends normally or with an exception, and in both cases it leaves a state behind. A triple therefore has two postconditions, one for each kind of end. There is one rule for each construct, and a loop over a list has an invariant that knows which part of the list is done.
-/

namespace Foundation.Effect

variable {ε σ α β γ : Type}

/-- The state a run ends in, normally or with an exception. -/
def final : EStateM.Result ε σ α → σ
  | .ok _ t => t
  | .error _ t => t

/-- From a state that meets `P`, a normal end meets `Q` and an exception meets `E`. -/
def Triple (P : σ → Prop) (x : EStateM ε σ α) (Q : α → σ → Prop) (E : ε → σ → Prop) : Prop :=
  ∀ s, P s → match x s with
    | .ok a t => Q a t
    | .error e t => E e t

theorem pure_apply (a : α) (s : σ) : (pure a : EStateM ε σ α) s = .ok a s := rfl

theorem throw_apply (e : ε) (s : σ) : (throw e : EStateM ε σ α) s = .error e s := rfl

theorem get_apply (s : σ) : (get : EStateM ε σ σ) s = .ok s s := rfl

theorem set_apply (t s : σ) : (set t : EStateM ε σ PUnit) s = .ok ⟨⟩ t := rfl

theorem modify_apply (f : σ → σ) (s : σ) : (modify f : EStateM ε σ PUnit) s = .ok ⟨⟩ (f s) := rfl

theorem bind_apply (x : EStateM ε σ α) (f : α → EStateM ε σ β) (s : σ) :
    (x >>= f) s = match x s with
      | .ok a t => f a t
      | .error e t => .error e t := rfl

theorem tryCatch_apply (x : EStateM ε σ α) (handler : ε → EStateM ε σ α) (s : σ) :
    tryCatch x handler s = match x s with
      | .ok a t => .ok a t
      | .error e t => handler e t := by
  show EStateM.tryCatch x handler s = _
  rw [EStateM.tryCatch]
  cases x s <;> rfl

/-- A computation without a state, as a program. -/
def lift : Except ε α → EStateM ε σ α
  | .ok a => pure a
  | .error e => throw e

theorem lift_ok_bind (a : α) (f : α → EStateM ε σ β) : (lift (.ok a) >>= f) = f a := rfl

theorem lift_error_bind (e : ε) (f : α → EStateM ε σ β) : (lift (.error e) >>= f) = throw e := rfl

/-- An executable test of a normal end. -/
def okWith (test : α → σ → Bool) : EStateM.Result ε σ α → Bool
  | .ok a t => test a t
  | .error _ _ => false

theorem exists_of_okWith {test : α → σ → Bool} {result : EStateM.Result ε σ α} (h : okWith test result = true) :
    ∃ a t, result = .ok a t ∧ test a t = true := by
  cases result with
  | ok a t => exact ⟨a, t, rfl, h⟩
  | error e t => exact absurd h (by simp [okWith])

/-- `x` preserves `I`, however it ends. -/
def Keeps (I : σ → Prop) (x : EStateM ε σ α) : Prop := Triple I x (fun _ => I) (fun _ => I)

namespace Triple

variable {P : σ → Prop} {Q : α → σ → Prop} {E : ε → σ → Prop}

theorem ok {x : EStateM ε σ α} {s t : σ} {a : α} (hx : Triple P x Q E) (hs : P s) (hrun : x s = .ok a t) : Q a t := by
  have hend := hx s hs
  rwa [hrun] at hend

/-- What holds after both kinds of end holds of the final state. -/
theorem final {R : σ → Prop} {x : EStateM ε σ α} {s : σ} (hx : Triple P x (fun _ => R) (fun _ => R)) (hs : P s) : R (Effect.final (x s)) := by
  have hend := hx s hs
  cases hrun : x s with
  | ok a t =>
      rw [hrun] at hend
      exact hend
  | error e t =>
      rw [hrun] at hend
      exact hend

theorem weaken {P' : σ → Prop} {Q' : α → σ → Prop} {E' : ε → σ → Prop} {x : EStateM ε σ α} (hx : Triple P' x Q' E')
    (hpre : ∀ s, P s → P' s) (hpost : ∀ a s, Q' a s → Q a s) (herr : ∀ e s, E' e s → E e s) : Triple P x Q E := by
  intro s hs
  have hend := hx s (hpre s hs)
  cases hrun : x s with
  | ok a t =>
      rw [hrun] at hend
      exact hpost a t hend
  | error e t =>
      rw [hrun] at hend
      exact herr e t hend

theorem pure {a : α} (ha : ∀ s, P s → Q a s) : Triple P (pure a) Q E := ha

theorem throw {e : ε} (he : ∀ s, P s → E e s) : Triple P (throw e) Q E := he

theorem get {Q : σ → σ → Prop} (hs : ∀ s, P s → Q s s) : Triple P get Q E := hs

theorem modify {f : σ → σ} {Q : PUnit → σ → Prop} (hf : ∀ s, P s → Q ⟨⟩ (f s)) : Triple P (modify f) Q E := hf

theorem bind {M : β → σ → Prop} {x : EStateM ε σ β} {f : β → EStateM ε σ α} (hx : Triple P x M E)
    (hf : ∀ b, Triple (M b) (f b) Q E) : Triple P (x >>= f) Q E := by
  intro s hs
  have hfirst := hx s hs
  show match EStateM.bind x f s with
    | .ok a t => Q a t
    | .error e t => E e t
  rw [EStateM.bind]
  cases hrun : x s with
  | ok b t =>
      rw [hrun] at hfirst
      exact hf b t hfirst
  | error e t =>
      rw [hrun] at hfirst
      exact hfirst

theorem tryCatch {F : ε → σ → Prop} {x : EStateM ε σ α} {handler : ε → EStateM ε σ α} (hx : Triple P x Q F)
    (hhandler : ∀ e, Triple (F e) (handler e) Q E) : Triple P (tryCatch x handler) Q E := by
  intro s hs
  have hfirst := hx s hs
  show match EStateM.tryCatch x handler s with
    | .ok a t => Q a t
    | .error e t => E e t
  rw [EStateM.tryCatch]
  cases hrun : x s with
  | ok b t =>
      rw [hrun] at hfirst
      exact hfirst
  | error e t =>
      rw [hrun] at hfirst
      exact hhandler e t hfirst

theorem ite {c : Prop} [Decidable c] {x y : EStateM ε σ α} (hthen : c → Triple P x Q E) (helse : ¬c → Triple P y Q E) :
    Triple P (if c then x else y) Q E := by
  by_cases hc : c
  · rw [if_pos hc]
    exact hthen hc
  · rw [if_neg hc]
    exact helse hc

/-- The invariant is about the elements already done, the value carried by the loop and the state. -/
theorem foldlM {I : List γ → β → σ → Prop} {f : β → γ → EStateM ε σ β} {l : List γ}
    (hstep : ∀ done c, c ∈ l → ∀ b, Triple (I done b) (f b c) (I (done ++ [c])) E) (b : β) :
    Triple (I [] b) (l.foldlM f b) (I l) E := by
  suffices hall : ∀ rest done b, rest ⊆ l → Triple (I done b) (rest.foldlM f b) (I (done ++ rest)) E from
    hall l [] b (List.Subset.refl l)
  intro rest
  induction rest with
  | nil =>
      intro done b _
      rw [List.foldlM_nil, List.append_nil]
      exact pure fun _ hs => hs
  | cons c rest ih =>
      intro done b hsub
      obtain ⟨hc, hrest⟩ := List.cons_subset.mp hsub
      rw [List.foldlM_cons, List.append_cons]
      exact bind (hstep done c hc b) fun b' => ih (done ++ [c]) b' hrest

end Triple

namespace Keeps

variable {I : σ → Prop}

theorem bind {x : EStateM ε σ β} {f : β → EStateM ε σ α} (hx : Keeps I x) (hf : ∀ b, Keeps I (f b)) : Keeps I (x >>= f) :=
  Triple.bind hx hf

theorem pure (a : α) : Keeps (ε := ε) I (pure a) := Triple.pure fun _ hs => hs

theorem final {x : EStateM ε σ α} (hx : Keeps I x) {s : σ} (hs : I s) : I (Effect.final (x s)) := Triple.final hx hs

theorem ok {x : EStateM ε σ α} (hx : Keeps I x) {s t : σ} {a : α} (hs : I s) (hrun : x s = .ok a t) : I t := Triple.ok hx hs hrun

/-- What only depends on things that `x` leaves alone is kept. -/
theorem of_frame {R : σ → σ → Prop} {x : EStateM ε σ α} (hx : ∀ s, Keeps (R s) x) (hrefl : ∀ s, R s s) (hI : ∀ s t, R s t → I s → I t) :
    Keeps I x := by
  intro s hs
  exact (hx s).weaken (P := (· = s)) (Q := fun _ => I) (E := fun _ => I) (fun t ht => ht ▸ hrefl s) (fun _ t hR => hI s t hR hs)
    (fun _ t hR => hI s t hR hs) s rfl

theorem throw (e : ε) : Keeps (α := α) I (throw e : EStateM ε σ α) := Triple.throw fun _ hs => hs

end Keeps

end Foundation.Effect
