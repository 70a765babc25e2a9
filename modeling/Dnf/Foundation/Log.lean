import Mathlib.Data.List.Induction
import Mathlib.Data.Set.Insert

/-!
# Logs

A log is a list of entries, each with a key, oldest first. What it says about a key is the value of the last entry with that key. A log whose values say whether their key is there afterwards turns a set into another one, and the membership of a key only depends on its last entry.
-/

namespace Foundation.Log

variable {κ α : Type} [DecidableEq κ]

def last (log : List (κ × α)) (k : κ) : Option α := log.reverse.lookup k

def replay (stays : α → Bool) (log : List (κ × α)) (before : Set κ) : Set κ :=
  log.foldl (fun set entry => if stays entry.2 then insert entry.1 set else set \ {entry.1}) before

@[simp] theorem last_nil (k : κ) : last ([] : List (κ × α)) k = none := rfl

theorem last_append (log log' : List (κ × α)) (k : κ) : last (log ++ log') k = (last log' k).or (last log k) := by
  rw [last, List.reverse_append, List.lookup_append]
  rfl

theorem last_concat (log : List (κ × α)) (entry : κ × α) (k : κ) :
    last (log ++ [entry]) k = if entry.1 = k then some entry.2 else last log k := by
  obtain ⟨k', v⟩ := entry
  rw [last_append]
  by_cases hk : k' = k
  · subst hk
    simp [last]
  · rw [if_neg hk, show last [(k', v)] k = none from ?_, Option.none_or]
    simp [last, List.lookup_cons, beq_eq_false_iff_ne.mpr (Ne.symm hk)]

theorem mem_of_last {log : List (κ × α)} {k : κ} {v : α} (h : last log k = some v) : (k, v) ∈ log := by
  induction log using List.reverseRecOn with
  | nil => cases h
  | append_singleton log entry ih =>
      rw [last_concat] at h
      split_ifs at h with hk
      · cases h
        exact List.mem_append_right _ (hk ▸ List.mem_singleton_self _)
      · exact List.mem_append_left _ (ih h)

theorem last_eq_none_iff {log : List (κ × α)} {k : κ} : last log k = none ↔ ∀ v, (k, v) ∉ log := by
  induction log using List.reverseRecOn with
  | nil => simp
  | append_singleton log entry ih =>
      obtain ⟨k', v'⟩ := entry
      rw [last_concat]
      by_cases hk : k' = k
      · subst hk
        rw [if_pos rfl]
        exact iff_of_false (by simp) fun h => h v' (by simp)
      · simp only [if_neg hk, ih, List.mem_append, List.mem_singleton, Prod.mk.injEq, Ne.symm hk, false_and, or_false]

/-- Entries that are left out do not matter where the last one is kept. -/
theorem last_filter {log : List (κ × α)} {k : κ} {p : κ × α → Bool} (h : ∀ v, last log k = some v → p (k, v) = true) :
    last (log.filter p) k = last log k := by
  induction log using List.reverseRecOn with
  | nil => rfl
  | append_singleton log entry ih =>
      obtain ⟨k', v'⟩ := entry
      rw [last_concat] at h ⊢
      rw [List.filter_append]
      by_cases hk : k' = k
      · subst hk
        rw [if_pos rfl] at h ⊢
        rw [List.filter_cons_of_pos (h v' rfl), List.filter_nil, last_concat, if_pos rfl]
      · simp only [if_neg hk] at h ⊢
        cases hp : p (k', v') with
        | true => rw [List.filter_cons_of_pos hp, List.filter_nil, last_concat, if_neg hk, ih h]
        | false => rw [List.filter_cons_of_neg (by simp [hp]), List.filter_nil, List.append_nil, ih h]

theorem last_map {β : Type} (f : α → β) (log : List (κ × α)) (k : κ) :
    last (log.map fun entry => (entry.1, f entry.2)) k = (last log k).map f := by
  induction log using List.reverseRecOn with
  | nil => rfl
  | append_singleton log entry ih =>
      rw [List.map_append, List.map_singleton, last_concat, last_concat, ih]
      split_ifs <;> rfl

theorem mem_replay_iff {stays : α → Bool} {log : List (κ × α)} {before : Set κ} {k : κ} :
    k ∈ replay stays log before ↔ match last log k with
      | some v => stays v = true
      | none => k ∈ before := by
  induction log using List.reverseRecOn with
  | nil => rfl
  | append_singleton log entry ih =>
      obtain ⟨k', v⟩ := entry
      rw [replay, List.foldl_append, List.foldl_cons, List.foldl_nil, ← replay, last_concat]
      by_cases hk : k' = k
      · subst hk
        rw [if_pos rfl]
        cases hv : stays v <;> simp [hv]
      · rw [if_neg hk, ← ih]
        cases stays v <;> simp [Ne.symm hk]

end Foundation.Log
