import Mathlib.Logic.Function.Basic

/-!
# Transition systems

A system is a set of initial states and a partial step function: an action is refused in a state where `next` is `none`. Runs are finite, and every run is made of steps that meet a guard. The guard is what lets one talk about the runs in which some event never happens: with the guard that always holds these are all runs.
-/

namespace Foundation

structure System (State Action : Type) where
  Init : State → Prop
  next : State → Action → Option State

namespace System

variable {State Action : Type} (sys : System State Action)

/-- A finite run whose steps all meet `Guard`. -/
inductive Run (Guard : State → Action → Prop) : State → List Action → State → Prop
  | nil (s : State) : Run Guard s [] s
  | cons {s t u : State} {a : Action} {as : List Action} (hguard : Guard s a)
      (hstep : sys.next s a = some t) (hrest : Run Guard t as u) : Run Guard s (a :: as) u

def anyStep : State → Action → Prop := fun _ _ => True

def Reachable (Guard : State → Action → Prop) (s : State) : Prop :=
  ∃ start actions, sys.Init start ∧ sys.Run Guard start actions s

/-- The executable run: perform the actions one after another, as long as each meets the guard. -/
def exec (Guard : State → Action → Prop) [∀ s a, Decidable (Guard s a)] (s : State) : List Action → Option State
  | [] => some s
  | a :: as => if Guard s a then (sys.next s a).bind fun t => exec Guard t as else none

instance (s : State) (a : Action) : Decidable (anyStep s a) := isTrue trivial

variable {sys} {Guard : State → Action → Prop}

/-- What every guarded step preserves holds at the end of every guarded run. -/
theorem Run.invariant {Inv : State → Prop}
    (hstep : ∀ s a t, Inv s → Guard s a → sys.next s a = some t → Inv t)
    {s t : State} {as : List Action} (hrun : sys.Run Guard s as t) (hs : Inv s) : Inv t := by
  induction hrun with
  | nil => exact hs
  | cons hguard hnext _ ih => exact ih (hstep _ _ _ hs hguard hnext)

theorem Run.mono {Weak : State → Action → Prop} (hweak : ∀ s a, Guard s a → Weak s a) {s t : State} {as : List Action}
    (hrun : sys.Run Guard s as t) : sys.Run Weak s as t := by
  induction hrun with
  | nil s => exact .nil s
  | cons hguard hnext _ ih => exact .cons (hweak _ _ hguard) hnext ih

theorem Run.snoc {s t u : State} {a : Action} {as : List Action} (hrun : sys.Run anyStep s as t) (hnext : sys.next t a = some u) :
    sys.Run anyStep s (as ++ [a]) u := by
  induction hrun with
  | nil s => exact .cons trivial hnext (.nil u)
  | cons _ hstep _ ih => exact .cons trivial hstep (ih hnext)

theorem Run.append {s t u : State} {as bs : List Action} (hrun : sys.Run Guard s as t) (hrest : sys.Run Guard t bs u) :
    sys.Run Guard s (as ++ bs) u := by
  induction hrun with
  | nil s => exact hrest
  | cons hguard hnext _ ih => exact .cons hguard hnext (ih hrest)

theorem Reachable.invariant {Inv : State → Prop} (hinit : ∀ s, sys.Init s → Inv s)
    (hstep : ∀ s a t, Inv s → Guard s a → sys.next s a = some t → Inv t)
    {s : State} (hs : sys.Reachable Guard s) : Inv s := by
  obtain ⟨start, actions, hstart, hrun⟩ := hs
  exact hrun.invariant hstep (hinit start hstart)

theorem run_of_exec [∀ s a, Decidable (Guard s a)] {s t : State} {as : List Action}
    (hexec : sys.exec Guard s as = some t) : sys.Run Guard s as t := by
  induction as generalizing s with
  | nil =>
      rw [exec, Option.some.injEq] at hexec
      subst hexec
      exact .nil s
  | cons a as ih =>
      rw [exec, Option.ite_none_right_eq_some, Option.bind_eq_some_iff] at hexec
      obtain ⟨hguard, u, hnext, hrest⟩ := hexec
      exact .cons hguard hnext (ih hrest)

/-- What an execution from an initial state ends in is reachable, with whatever the test found there. -/
theorem exists_reachable_of_exec [∀ s a, Decidable (Guard s a)] {start : State} {as : List Action} (hstart : sys.Init start)
    {test : State → Bool} (hexec : (sys.exec Guard start as).any test = true) :
    ∃ s, sys.Reachable Guard s ∧ test s = true := by
  obtain ⟨s, hs, htest⟩ := (Option.any_eq_true ..).mp hexec
  exact ⟨s, ⟨start, as, hstart, run_of_exec hs⟩, htest⟩

/-! ### Deterministic systems -/

/-- In each state at most one action can be taken. -/
def Deterministic (sys : System State Action) : Prop := ∀ s a b t u, sys.next s a = some t → sys.next s b = some u → a = b

/-- A run that cannot go on passes through every state that is reached. -/
theorem Run.through (hsys : sys.Deterministic) {s t u : State} {as bs : List Action} (hend : sys.Run anyStep s as t) (hstuck : ∀ a, sys.next t a = none)
    (hrun : sys.Run anyStep s bs u) : ∃ cs, sys.Run anyStep u cs t := by
  induction hrun generalizing as with
  | nil s => exact ⟨as, hend⟩
  | @cons s v u b bs _ hnext _ ih =>
      cases hend with
      | nil =>
          rw [hstuck] at hnext
          cases hnext
      | @cons _ w _ a as _ hnext' hrest =>
          obtain rfl := hsys s a b w v hnext' hnext
          rw [hnext, Option.some.injEq] at hnext'
          subst hnext'
          exact ih hrest

/-! ### What holds in every state of a run -/

/-- `P` holds in each state that the actions lead through. -/
def Always (sys : System State Action) (P : State → Prop) (s : State) (as : List Action) : Prop :=
  ∀ before after t, as = before ++ after → sys.Run anyStep s before t → P t

theorem always_nil_iff {P : State → Prop} {s : State} : sys.Always P s [] ↔ P s := by
  constructor
  · intro halways
    exact halways [] [] s rfl (.nil s)
  · intro hs before after t heq hrun
    obtain ⟨rfl, _⟩ := List.append_eq_nil_iff.mp heq.symm
    cases hrun
    exact hs

theorem always_cons_iff {P : State → Prop} {s t : State} {a : Action} {as : List Action} (hnext : sys.next s a = some t) :
    sys.Always P s (a :: as) ↔ P s ∧ sys.Always P t as := by
  constructor
  · intro halways
    refine ⟨halways [] (a :: as) s rfl (.nil s), fun before after u heq hrun => ?_⟩
    exact halways (a :: before) after u (congrArg (a :: ·) heq) (.cons trivial hnext hrun)
  · rintro ⟨hs, halways⟩ before after u heq hrun
    cases hrun with
    | nil => exact hs
    | cons _ hstep hrest =>
        rw [List.cons_append, List.cons.injEq] at heq
        obtain ⟨rfl, heq⟩ := heq
        rw [hnext, Option.some.injEq] at hstep
        subst hstep
        exact halways _ after u heq hrest

/-- Where a step leads to `P` exactly if it is good, and good steps keep the invariant that this rests on, `P` holds all along a run exactly if its steps are good. -/
theorem Run.always_iff {Inv P : State → Prop} {Good : State → Action → Prop}
    (hiff : ∀ s a t, Inv s → Guard s a → sys.next s a = some t → (P t ↔ Good s a))
    (hstep : ∀ s a t, Inv s → Guard s a → Good s a → sys.next s a = some t → Inv t)
    {s t : State} {as : List Action} (hrun : sys.Run Guard s as t) (hs : Inv s) (hP : P s) :
    sys.Always P s as ↔ sys.Run Good s as t := by
  induction hrun with
  | nil s => exact iff_of_true (always_nil_iff.mpr hP) (.nil s)
  | @cons s t u a as hguard hnext _ ih =>
      have hgood := hiff s a t hs hguard hnext
      rw [always_cons_iff hnext]
      constructor
      · rintro ⟨_, halways⟩
        have hPt := halways [] as t rfl (.nil t)
        have ht := hstep s a t hs hguard (hgood.mp hPt) hnext
        exact .cons (hgood.mp hPt) hnext ((ih ht hPt).mp halways)
      · intro hall
        cases hall with
        | cons hthis hnext' hrest =>
            rw [hnext, Option.some.injEq] at hnext'
            subst hnext'
            exact ⟨hP, (ih (hstep s a t hs hguard hthis hnext) (hgood.mpr hthis)).mpr hrest⟩

/-- An execution that ends where `P` fails refutes `P` along the run. -/
theorem not_always_of_exec [∀ s a, Decidable (Guard s a)] {P : State → Prop} {test : State → Bool} (htest : ∀ s, test s = true → ¬P s)
    {start : State} {as : List Action} (hexec : (sys.exec Guard start as).any test = true) :
    (∃ s, sys.Run Guard start as s) ∧ ¬sys.Always P start as := by
  obtain ⟨s, hs, hfails⟩ := (Option.any_eq_true ..).mp hexec
  have hrun := run_of_exec hs
  refine ⟨⟨s, hrun⟩, fun halways => htest s hfails ?_⟩
  exact halways as [] s (List.append_nil as).symm (hrun.mono fun _ _ _ => trivial)

end System

end Foundation
