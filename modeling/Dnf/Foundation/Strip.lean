import Mathlib.Data.List.DropRight

/-!
# Stripping the end of a text

`text.rstrip(c)` for one character. What is left does not end in the character, and the text is that followed by copies of it.
-/

namespace Foundation.Strip

variable {α : Type} {p : α → Bool} {head : List α}

theorem rdropWhile_append_all {tail : List α} (htail : ∀ c ∈ tail, p c = true) : (head ++ tail).rdropWhile p = head.rdropWhile p := by
  induction tail using List.reverseRecOn with
  | nil => rw [List.append_nil]
  | append_singleton tail c ih =>
      rw [← List.append_assoc, List.rdropWhile_concat_pos _ _ _ (htail c (List.mem_append_right _ (List.mem_singleton_self c)))]
      exact ih fun d hd => htail d (List.mem_append_left _ hd)

variable [DecidableEq α] {c : α} {text : List α}

theorem rdropWhile_append_replicate (head : List α) (n : Nat) : (head ++ List.replicate n c).rdropWhile (· = c) = head.rdropWhile (· = c) :=
  rdropWhile_append_all fun _ hd => decide_eq_true (List.eq_of_mem_replicate hd)

theorem rdropWhile_of_getLast (hlast : text.getLast? ≠ some c) : text.rdropWhile (· = c) = text := by
  rw [List.rdropWhile_eq_self_iff]
  intro hne heq
  exact hlast ((List.getLast?_eq_some_getLast hne).trans (congrArg some (of_decide_eq_true heq)))

theorem getLast_rdropWhile (text : List α) : (text.rdropWhile (· = c)).getLast? ≠ some c := by
  intro hlast
  have hne : text.rdropWhile (· = c) ≠ [] := by
    intro h
    rw [h] at hlast
    cases hlast
  rw [List.getLast?_eq_some_getLast hne, Option.some.injEq] at hlast
  exact List.rdropWhile_last_not (fun d => decide (d = c)) text hne (decide_eq_true hlast)

theorem exists_append_replicate (c : α) (text : List α) : ∃ n, text = text.rdropWhile (· = c) ++ List.replicate n c := by
  induction text using List.reverseRecOn with
  | nil => exact ⟨0, rfl⟩
  | append_singleton text d ih =>
      by_cases hd : d = c
      · obtain ⟨n, hn⟩ := ih
        subst hd
        refine ⟨n + 1, ?_⟩
        rw [List.rdropWhile_concat_pos (fun x => decide (x = d)) text d (decide_eq_true rfl), List.replicate_succ', ← List.append_assoc, ← hn]
      · refine ⟨0, ?_⟩
        rw [List.rdropWhile_concat_neg _ _ _ (by simpa using hd), List.replicate_zero, List.append_nil]

end Foundation.Strip
