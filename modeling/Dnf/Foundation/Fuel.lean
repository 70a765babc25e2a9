import Mathlib.Order.Basic
import Mathlib.Order.Lattice

/-!
# Enough fuel

A recursion that need not be structural takes fuel. What is said of it is said of all runs with enough fuel: it ends with one result, whatever fuel above the bound it is given.
-/

namespace Foundation

/-- `P` holds from some amount of fuel on. -/
def Enough (P : Nat → Prop) : Prop := ∃ enough, ∀ fuel, enough ≤ fuel → P fuel

namespace Enough

variable {P Q : Nat → Prop}

theorem of_forall (h : ∀ fuel, P fuel) : Enough P := ⟨0, fun fuel _ => h fuel⟩

theorem mono (hP : Enough P) (h : ∀ fuel, P fuel → Q fuel) : Enough Q := by
  obtain ⟨enough, hP⟩ := hP
  exact ⟨enough, fun fuel hfuel => h fuel (hP fuel hfuel)⟩

theorem and (hP : Enough P) (hQ : Enough Q) : Enough fun fuel => P fuel ∧ Q fuel := by
  obtain ⟨p, hP⟩ := hP
  obtain ⟨q, hQ⟩ := hQ
  exact ⟨max p q, fun fuel hfuel => ⟨hP fuel ((le_max_left p q).trans hfuel), hQ fuel ((le_max_right p q).trans hfuel)⟩⟩

/-- The caller takes one unit of fuel. -/
theorem of_succ (hP : Enough fun fuel => P (fuel + 1)) : Enough P := by
  obtain ⟨enough, hP⟩ := hP
  refine ⟨enough + 1, fun fuel hfuel => ?_⟩
  obtain ⟨rest, rfl⟩ := Nat.exists_eq_add_of_le' hfuel
  exact hP (rest + enough) (Nat.le_add_left enough rest)

end Enough

end Foundation
