import Mathlib.Data.List.ReduceOption
import Dnf.Foundation.Effect

/-!
# Loops that collect errors

A loop attempts one thing after another, goes on after the exceptions it recognises and collects them; any other exception ends it. `Attempted` says what such a loop did without the loop: each attempt starts in the state the one before it left, and has an outcome, the error it was rejected with or none. A loop whose attempts all settle, whatever the state, ends with the errors of its outcomes.
-/

namespace Foundation.Effect

variable {ε σ α β γ ω : Type} (caught : ε → Option γ)

/-- Tries `attempt` on each item in turn. -/
def collect (attempt : ω → EStateM ε σ PUnit) (items : List ω) (errors : List γ) : EStateM ε σ (List γ) :=
  items.foldlM (fun errors item => tryCatch (do attempt item; pure errors) fun e =>
    match caught e with
    | some error => pure (errors ++ [error])
    | none => throw e) errors

/-- An end after which the loop goes on. -/
def Settled : EStateM.Result ε σ α → Prop
  | .ok _ _ => True
  | .error e _ => (caught e).isSome

inductive Attempted : List (EStateM ε σ PUnit) → σ → List (Option γ) → σ → Prop
  | nil {s : σ} : Attempted [] s [] s
  | accept {x : EStateM ε σ PUnit} {rest : List (EStateM ε σ PUnit)} {s t u : σ} {outcomes : List (Option γ)} :
      x s = .ok ⟨⟩ t → Attempted rest t outcomes u → Attempted (x :: rest) s (none :: outcomes) u
  | reject {x : EStateM ε σ PUnit} {rest : List (EStateM ε σ PUnit)} {s t u : σ} {outcomes : List (Option γ)} {e : ε} {error : γ} :
      x s = .error e t → caught e = some error → Attempted rest t outcomes u → Attempted (x :: rest) s (some error :: outcomes) u

variable {caught}

theorem Settled.bind {x : EStateM ε σ α} {f : α → EStateM ε σ β} {s : σ} (hx : Settled caught (x s))
    (hf : ∀ a t, Settled caught (f a t)) : Settled caught ((x >>= f) s) := by
  rw [bind_apply]
  cases hrun : x s with
  | ok a t => exact hf a t
  | error e t => rwa [hrun] at hx

/-! ### One attempt -/

theorem collect_nil (attempt : ω → EStateM ε σ PUnit) (errors : List γ) : collect caught attempt [] errors = pure errors := rfl

theorem collect_cons_ok {attempt : ω → EStateM ε σ PUnit} {item : ω} {s t : σ} (hx : attempt item s = .ok ⟨⟩ t)
    (rest : List ω) (errors : List γ) : collect caught attempt (item :: rest) errors s = collect caught attempt rest errors t := by
  rw [collect, List.foldlM_cons, bind_apply, tryCatch_apply, bind_apply, hx]
  rfl

theorem collect_cons_caught {attempt : ω → EStateM ε σ PUnit} {item : ω} {s t : σ} {e : ε} {error : γ}
    (hx : attempt item s = .error e t) (he : caught e = some error) (rest : List ω) (errors : List γ) :
    collect caught attempt (item :: rest) errors s = collect caught attempt rest (errors ++ [error]) t := by
  rw [collect, List.foldlM_cons, bind_apply, tryCatch_apply, bind_apply, hx]
  simp only [he]
  rfl

theorem collect_cons_uncaught {attempt : ω → EStateM ε σ PUnit} {item : ω} {s t : σ} {e : ε}
    (hx : attempt item s = .error e t) (he : caught e = none) (rest : List ω) (errors : List γ) :
    collect caught attempt (item :: rest) errors s = .error e t := by
  rw [collect, List.foldlM_cons, bind_apply, tryCatch_apply, bind_apply, hx]
  simp only [he]
  rfl

/-! ### All attempts -/

theorem Attempted.append {xs ys : List (EStateM ε σ PUnit)} {s t u : σ} {outcomes outcomes' : List (Option γ)}
    (hxs : Attempted caught xs s outcomes t) (hys : Attempted caught ys t outcomes' u) :
    Attempted caught (xs ++ ys) s (outcomes ++ outcomes') u := by
  induction hxs with
  | nil => exact hys
  | accept hx _ ih => exact .accept hx (ih hys)
  | reject hx he _ ih => exact .reject hx he (ih hys)

theorem Attempted.split {xs ys : List (EStateM ε σ PUnit)} {s u : σ} {outcomes : List (Option γ)}
    (h : Attempted caught (xs ++ ys) s outcomes u) :
    ∃ first second t, outcomes = first ++ second ∧ Attempted caught xs s first t ∧ Attempted caught ys t second u := by
  induction xs generalizing s outcomes with
  | nil => exact ⟨[], outcomes, s, rfl, .nil, h⟩
  | cons x xs ih =>
      cases h with
      | accept hx hrest =>
          obtain ⟨first, second, t, rfl, hfirst, hsecond⟩ := ih hrest
          exact ⟨none :: first, second, t, rfl, .accept hx hfirst, hsecond⟩
      | reject hx he hrest =>
          obtain ⟨first, second, t, rfl, hfirst, hsecond⟩ := ih hrest
          exact ⟨_ :: first, second, t, rfl, .reject hx he hfirst, hsecond⟩

/-- The loop ends with the errors of the outcomes. -/
theorem Attempted.collect_eq {attempt : ω → EStateM ε σ PUnit} {items : List ω} {s t : σ} {outcomes : List (Option γ)}
    (h : Attempted caught (items.map attempt) s outcomes t) (errors : List γ) :
    collect caught attempt items errors s = .ok (errors ++ outcomes.reduceOption) t := by
  induction items generalizing s outcomes errors with
  | nil =>
      cases h
      rw [collect_nil, pure_apply, List.reduceOption_nil, List.append_nil]
  | cons item rest ih =>
      rw [List.map_cons] at h
      cases h with
      | accept hx hrest => rw [collect_cons_ok hx, ih hrest, List.reduceOption_cons_of_none]
      | reject hx he hrest =>
          rw [collect_cons_caught hx he, ih hrest, List.reduceOption_cons_of_some, List.append_assoc, List.singleton_append]

/-- Every attempt of a loop that went through settled, in some state. -/
theorem Attempted.settled {xs : List (EStateM ε σ PUnit)} {s t : σ} {outcomes : List (Option γ)}
    (h : Attempted caught xs s outcomes t) {x : EStateM ε σ PUnit} (hx : x ∈ xs) : ∃ u, Settled caught (x u) := by
  induction h with
  | nil => exact absurd hx (by simp)
  | @accept y rest s t u outcomes hy _ ih =>
      obtain rfl | hrest := List.mem_cons.mp hx
      · refine ⟨s, ?_⟩
        rw [hy]
        trivial
      · exact ih hrest
  | @reject y rest s t u outcomes e error hy he _ ih =>
      obtain rfl | hrest := List.mem_cons.mp hx
      · refine ⟨s, ?_⟩
        rw [hy]
        exact Option.isSome_of_eq_some he
      · exact ih hrest

theorem exists_attempted {xs : List (EStateM ε σ PUnit)} (hxs : ∀ x ∈ xs, ∀ s, Settled caught (x s)) (s : σ) :
    ∃ outcomes t, Attempted caught xs s outcomes t := by
  induction xs generalizing s with
  | nil => exact ⟨[], s, .nil⟩
  | cons x xs ih =>
      have hx := hxs x List.mem_cons_self s
      have hrest := fun t => ih (fun y hy => hxs y (List.mem_cons_of_mem _ hy)) t
      cases hrun : x s with
      | ok a t =>
          obtain ⟨outcomes, u, hattempted⟩ := hrest t
          exact ⟨none :: outcomes, u, .accept hrun hattempted⟩
      | error e t =>
          rw [hrun] at hx
          obtain ⟨error, he⟩ := Option.isSome_iff_exists.mp hx
          obtain ⟨outcomes, u, hattempted⟩ := hrest t
          exact ⟨some error :: outcomes, u, .reject hrun he hattempted⟩

/-! ### Invariants -/

theorem collect_map {ω' : Type} (f : ω' → ω) (attempt : ω → EStateM ε σ PUnit) (items : List ω') (errors : List γ) :
    collect caught attempt (items.map f) errors = collect caught (fun item => attempt (f item)) items errors := by
  rw [collect, List.foldlM_map]
  rfl

/-- An attempt that settles and keeps `I` raises nothing that ends the loop. -/
theorem Triple.of_settled {I : σ → Prop} {x : EStateM ε σ α} (hsettled : ∀ s, Settled caught (x s)) (hkeeps : Keeps I x) :
    Triple I x (fun _ => I) (fun e s => match caught e with
      | some _ => I s
      | none => False) := by
  intro s hs
  have hI := hkeeps s hs
  have hend := hsettled s
  cases hrun : x s with
  | ok a t =>
      rw [hrun] at hI
      exact hI
  | error e t =>
      rw [hrun] at hI hend
      obtain ⟨error, he⟩ := Option.isSome_iff_exists.mp hend
      simp only [he]
      exact hI

/-- The invariant of a loop that collects knows the items done and the errors so far. -/
theorem Triple.collect {I : List ω → List γ → σ → Prop} {E : ε → σ → Prop} {attempt : ω → EStateM ε σ PUnit} {items : List ω}
    (hstep : ∀ done item, item ∈ items → ∀ errors, Triple (I done errors) (attempt item) (fun _ => I (done ++ [item]) errors)
      (fun e s => match caught e with
        | some error => I (done ++ [item]) (errors ++ [error]) s
        | none => E e s)) (errors : List γ) :
    Triple (I [] errors) (collect caught attempt items errors) (I items) E := by
  refine Triple.foldlM (fun done item hitem errors => ?_) errors
  refine Triple.tryCatch (Triple.bind (hstep done item hitem errors) fun _ => Triple.pure fun _ hs => hs) fun e => ?_
  cases he : caught e with
  | some error => exact Triple.pure fun _ hs => hs
  | none => exact Triple.throw fun _ hs => hs

theorem Keeps.collect {I : σ → Prop} {attempt : ω → EStateM ε σ PUnit} (hattempt : ∀ item, Keeps I (attempt item)) (items : List ω) (errors : List γ) :
    Keeps I (collect caught attempt items errors) := by
  refine Triple.collect (I := fun _ _ => I) (fun _ item _ _ => (hattempt item).weaken (fun _ h => h) (fun _ _ h => h) fun e s hs => ?_) errors
  cases caught e <;> exact hs

/-! ### Loops that only add

Each turn adds to what there is, whatever it finds there.
-/

theorem foldl_adds (has : σ → Prop) (adds : α → Prop) {turn : σ → α → σ} (hturn : ∀ s a, has (turn s a) ↔ has s ∨ adds a) (items : List α) (s : σ) :
    has (items.foldl turn s) ↔ has s ∨ ∃ a ∈ items, adds a := by
  induction items generalizing s with
  | nil => simp
  | cons a items ih => rw [List.foldl_cons, ih, hturn, or_assoc, List.exists_mem_cons_iff]

end Foundation.Effect
