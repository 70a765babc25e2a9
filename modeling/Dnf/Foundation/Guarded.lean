import Mathlib.Data.List.Basic

/-!
# Logs whose entries are allowed by what came before

An entry may be made only where the entries before it allow it. A log grows at its end, so it is enough that each new entry is allowed by the log so far.
-/

namespace Foundation

variable {α : Type}

def Guarded (Allowed : List α → α → Prop) (log : List α) : Prop := ∀ before entry after, log = before ++ entry :: after → Allowed before entry

variable {Allowed : List α → α → Prop} {log : List α}

theorem guarded_nil : Guarded Allowed ([] : List α) := by
  intro before entry after h
  cases before <;> cases h

theorem Guarded.concat {entry : α} (h : Guarded Allowed log) (hentry : Allowed log entry) : Guarded Allowed (log ++ [entry]) := by
  intro before entry' after heq
  rcases List.eq_nil_or_concat after with rfl | ⟨after, last, rfl⟩
  · obtain ⟨rfl, hlast⟩ := List.append_inj' heq rfl
    obtain rfl := (List.cons.inj hlast).1
    exact hentry
  · rw [List.concat_eq_append, ← List.cons_append, ← List.append_assoc] at heq
    exact h before entry' after (List.append_inj' heq rfl).1

end Foundation
