import Mathlib.Data.List.Infix

/-!
# Replacing a text in a text

Python's `text.replace(old, new)` for an `old` that is not empty: occurrences are taken from the left and do not overlap. The recursion carries how many characters of an occurrence are still to be skipped.
-/

namespace Foundation

section Replace

variable (old new : List Char)

def replaceFrom : Nat → List Char → List Char
  | _, [] => []
  | 0, c :: rest => if old.isPrefixOf (c :: rest) then new ++ replaceFrom (old.length - 1) rest else c :: replaceFrom 0 rest
  | skip + 1, _ :: rest => replaceFrom skip rest

def replace (text : List Char) : List Char := replaceFrom old new 0 text

variable {old new}

theorem replaceFrom_cons (c : Char) (rest : List Char) : replaceFrom old new 0 (c :: rest) =
    if old.isPrefixOf (c :: rest) then new ++ replaceFrom old new (old.length - 1) rest else c :: replaceFrom old new 0 rest := rfl

theorem replaceFrom_drop (skip : Nat) (text : List Char) : replaceFrom old new skip text = replace old new (text.drop skip) := by
  induction skip generalizing text with
  | zero => rfl
  | succ skip ih =>
      cases text with
      | nil => rfl
      | cons c rest => exact ih rest

theorem replace_append_of_ne_nil (hold : old ≠ []) (rest : List Char) : replace old new (old ++ rest) = new ++ replace old new rest := by
  cases old with
  | nil => exact absurd rfl hold
  | cons c old =>
      have hfront : (c :: old).isPrefixOf (c :: (old ++ rest)) = true := List.isPrefixOf_iff_prefix.mpr (List.prefix_append (c :: old) rest)
      rw [replace, List.cons_append, replaceFrom_cons, if_pos hfront, replaceFrom_drop]
      have hdrop : (old ++ rest).drop ((c :: old).length - 1) = rest := by simp
      rw [hdrop]

theorem replace_cons_of_not_start {c : Char} {rest : List Char} (hfront : ¬old <+: c :: rest) : replace old new (c :: rest) = c :: replace old new rest := by
  rw [replace, replaceFrom_cons, if_neg (List.isPrefixOf_iff_prefix.not.mpr hfront)]
  rfl

/-- The occurrences of `old` and the characters between them. -/
theorem replace_cases (hold : old ≠ []) {P : List Char → List Char → Prop} (hnil : P [] [])
    (hfound : ∀ rest, P rest (replace old new rest) → P (old ++ rest) (new ++ replace old new rest))
    (hother : ∀ c rest, ¬old <+: c :: rest → P rest (replace old new rest) → P (c :: rest) (c :: replace old new rest)) (text : List Char) :
    P text (replace old new text) := by
  induction hlength : text.length using Nat.strongRecOn generalizing text with
  | ind n ih =>
      cases text with
      | nil => exact hnil
      | cons c rest =>
          by_cases hfront : old <+: c :: rest
          · obtain ⟨rest', hrest'⟩ := hfront
            have hshorter : rest'.length < n := by
              have hpos := List.length_pos_iff.mpr hold
              rw [← hlength, ← hrest', List.length_append]
              omega
            rw [← hrest', replace_append_of_ne_nil hold]
            exact hfound rest' (ih _ hshorter rest' rfl)
          · rw [replace_cons_of_not_start hfront]
            exact hother c rest hfront (ih _ (by rw [← hlength]; exact Nat.lt_succ_self _) rest rfl)

theorem replace_self (hold : old ≠ []) (text : List Char) : replace old old text = text :=
  replace_cases (P := fun text replaced => replaced = text) hold rfl (fun _ ih => by rw [ih]) (fun _ _ _ ih => by rw [ih]) text

theorem replace_of_not_inside {text : List Char} (hinside : ¬old <:+: text) : replace old new text = text := by
  induction text with
  | nil => rfl
  | cons c rest ih =>
      have hrest : ¬old <:+: rest := fun h => hinside (h.trans (List.suffix_cons c rest).isInfix)
      rw [replace_cons_of_not_start fun h => hinside h.isInfix, ih hrest]

theorem replace_singleton (c : Char) (text : List Char) : replace [c] new text = text.flatMap fun d => if d = c then new else [d] := by
  induction text with
  | nil => rfl
  | cons d rest ih =>
      rw [List.flatMap_cons, ← ih]
      split_ifs with hc
      · rw [hc]
        exact replace_append_of_ne_nil (List.cons_ne_nil c []) rest
      · exact replace_cons_of_not_start fun h => hc (List.cons_prefix_cons.mp h).1.symm

end Replace

end Foundation
