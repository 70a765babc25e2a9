import Mathlib.Data.List.Infix

/-!
# Texts and their lines

A text is split at a separator as `split` does: what stands after the last separator is a piece of its own, empty when the text ends with the separator.
-/

namespace Foundation

variable {α : Type} [DecidableEq α] {sep : α}

/-- The last piece is what follows the last separator. -/
theorem splitOn_eq_append_last (sep : α) (text : List α) :
    (sep ∉ text ∧ text.splitOn sep = [text]) ∨
      ∃ before last, text = before ++ sep :: last ∧ text.splitOn sep = before.splitOn sep ++ [last] := by
  by_cases hmem : sep ∈ text
  · obtain ⟨after, before, htext, hafter⟩ := List.eq_append_cons_of_mem (List.mem_reverse.mpr hmem)
    have htext' : text = before.reverse ++ sep :: after.reverse := by
      rw [← List.reverse_reverse text, htext, List.reverse_append, List.reverse_cons, List.append_assoc]
      rfl
    have hlast : sep ∉ after.reverse := fun h => hafter (List.mem_reverse.mp h)
    refine Or.inr ⟨before.reverse, after.reverse, htext', ?_⟩
    rw [htext', List.splitOn_append_cons_self, List.splitOn_eq_singleton hlast]
  · exact Or.inl ⟨hmem, List.splitOn_eq_singleton hmem⟩

/-- The last piece is empty exactly when the text is empty or ends with the separator. -/
theorem getLast?_splitOn_eq_nil_iff (sep : α) (text : List α) :
    (text.splitOn sep).getLast? = some [] ↔ text = [] ∨ [sep] <:+ text := by
  rcases splitOn_eq_append_last sep text with ⟨hmem, hsplit⟩ | ⟨before, last, htext, hsplit⟩
  · rw [hsplit, List.getLast?_singleton, Option.some.injEq]
    refine ⟨Or.inl, fun h => h.resolve_right fun hsuffix => ?_⟩
    exact hmem (hsuffix.subset (List.mem_singleton_self sep))
  · rw [hsplit, List.getLast?_concat, Option.some.injEq]
    constructor
    · intro hlast
      subst hlast
      exact Or.inr ⟨before, htext.symm⟩
    · rintro (hnil | ⟨front, hfront⟩)
      · rw [hnil] at htext
        exact absurd htext.symm (by simp)
      · -- the two decompositions of `text` would put `sep` inside the last piece
        have hpieces : text.splitOn sep = front.splitOn sep ++ [[]] := by
          rw [← hfront, List.splitOn_append_cons_self, List.splitOn_nil]
        rw [hsplit] at hpieces
        exact List.singleton_inj.mp (List.append_inj_right' hpieces rfl)

/-- The pieces hold nothing that the text does not. -/
theorem mem_of_mem_splitOn {text piece : List α} {c : α} (hpiece : piece ∈ text.splitOn sep) (hc : c ∈ piece) : c ∈ text := by
  induction text generalizing piece with
  | nil =>
      rw [List.splitOn_nil, List.mem_singleton] at hpiece
      exact hpiece ▸ hc
  | cons d text ih =>
      rw [List.splitOn_cons_eq_if_modifyHead] at hpiece
      split_ifs at hpiece with hd
      · rcases List.mem_cons.mp hpiece with rfl | hrest
        · cases hc
        · exact List.mem_cons_of_mem d (ih hrest hc)
      · cases hsplit : text.splitOn sep with
        | nil => exact absurd hsplit (List.splitOn_ne_nil sep text)
        | cons first rest =>
            rw [hsplit, List.modifyHead_cons] at hpiece
            rcases List.mem_cons.mp hpiece with rfl | hrest
            · rcases List.mem_cons.mp hc with rfl | hfirst
              · exact List.mem_cons_self ..
              · exact List.mem_cons_of_mem d (ih (hsplit ▸ List.mem_cons_self ..) hfirst)
            · exact List.mem_cons_of_mem d (ih (hsplit ▸ List.mem_cons_of_mem _ hrest) hc)

theorem not_mem_of_mem_splitOn {text piece : List α} (hpiece : piece ∈ text.splitOn sep) : sep ∉ piece := by
  induction text generalizing piece with
  | nil =>
      rw [List.splitOn_nil, List.mem_singleton] at hpiece
      exact hpiece ▸ List.not_mem_nil
  | cons d text ih =>
      rw [List.splitOn_cons_eq_if_modifyHead] at hpiece
      split_ifs at hpiece with hd
      · rcases List.mem_cons.mp hpiece with rfl | hrest
        · exact List.not_mem_nil
        · exact ih hrest
      · cases hsplit : text.splitOn sep with
        | nil => exact absurd hsplit (List.splitOn_ne_nil sep text)
        | cons first rest =>
            rw [hsplit, List.modifyHead_cons] at hpiece
            rcases List.mem_cons.mp hpiece with rfl | hrest
            · refine not_or.mpr ⟨fun h => hd (beq_iff_eq.mpr h.symm), ?_⟩ ∘ List.mem_cons.mp
              exact ih (hsplit ▸ List.mem_cons_self ..)
            · exact ih (hsplit ▸ List.mem_cons_of_mem _ hrest)

/-- A text that moves along by the front of it has no character that the front has not. -/
theorem not_mem_of_append_eq_append {front text back : List α} (h : front ++ text = text ++ back) (hfront : front ≠ []) {c : α}
    (hc : c ∉ front) : c ∉ text := by
  intro hmem
  have hindex := congrArg (List.idxOf c) h
  rw [List.idxOf_append_of_notMem hc, List.idxOf_append_of_mem hmem] at hindex
  have := List.length_pos_iff.mpr hfront
  omega

end Foundation
