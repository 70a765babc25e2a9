import Mathlib.Data.List.Induction
import Mathlib.Data.List.Nodup
import Mathlib.Data.List.Perm.Basic
import Mathlib.Logic.Function.Basic

/-!
# Buckets and reverse references

Two tables that one loop over a list fills. In the first each item has at most one key, and a bucket is the items of its key, in their order: some of the buckets together are a rearrangement of the items that have those keys. In the second an item refers to any number of keys, and a key has the set of the items that refer to it.
-/

namespace Foundation.Buckets

variable {α κ : Type} [DecidableEq κ]

section Fill

variable (slot : α → Option κ)

def put (buckets : κ → List α) (item : α) : κ → List α :=
  match slot item with
  | some k => Function.update buckets k (buckets k ++ [item])
  | none => buckets

def fill (items : List α) : κ → List α := items.foldl (put slot) fun _ => []

theorem put_apply (buckets : κ → List α) (item : α) (k : κ) :
    put slot buckets item k = buckets k ++ if slot item = some k then [item] else [] := by
  rw [put]
  cases hslot : slot item with
  | none => simp
  | some j =>
      by_cases hk : k = j
      · subst hk
        simp
      · rw [if_neg (by simpa using Ne.symm hk), List.append_nil]
        exact Function.update_of_ne hk _ _

theorem fill_apply (items : List α) (k : κ) : fill slot items k = items.filter fun item => slot item = some k := by
  induction items using List.reverseRecOn with
  | nil => rfl
  | append_singleton items item ih =>
      rw [fill] at ih ⊢
      rw [List.foldl_append, List.foldl_cons, List.foldl_nil, put_apply, ih, List.filter_append]
      by_cases hk : slot item = some k <;> simp [hk]

theorem fill_cons (item : α) (items : List α) (k : κ) :
    fill slot (item :: items) k = (if slot item = some k then [item] else []) ++ fill slot items k := by
  rw [fill_apply, fill_apply, List.filter_cons]
  by_cases hk : slot item = some k <;> simp [hk]

/-- Of the buckets with different keys only that of its own key gets an item. -/
theorem flatMap_singleton {keys : List κ} (hkeys : keys.Nodup) (key : Option κ) (item : α) :
    (keys.flatMap fun k => if key = some k then [item] else []) = if key.any (· ∈ keys) then [item] else [] := by
  induction keys with
  | nil => cases key <;> simp
  | cons j rest ih =>
      rw [List.flatMap_cons, ih (List.nodup_cons.mp hkeys).2]
      have hj : j ∉ rest := (List.nodup_cons.mp hkeys).1
      cases key with
      | none => simp
      | some k =>
          by_cases hk : k = j
          · subst hk
            simp [hj]
          · simp [hk]

theorem flatMap_fill_perm {keys : List κ} (hkeys : keys.Nodup) (items : List α) :
    (keys.flatMap (fill slot items)).Perm (items.filter fun item => (slot item).any (· ∈ keys)) := by
  induction items with
  | nil => simp [fill_apply]
  | cons item items ih =>
      have hsplit : (keys.flatMap (fill slot (item :: items))).Perm
          ((keys.flatMap fun k => if slot item = some k then [item] else []) ++ keys.flatMap (fill slot items)) := by
        rw [funext (fill_cons slot item items)]
        exact (List.flatMap_append_perm keys _ _).symm
      refine hsplit.trans ?_
      rw [flatMap_singleton hkeys, List.filter_cons]
      by_cases hany : (slot item).any (· ∈ keys) = true
      · rw [if_pos hany, if_pos hany]
        exact ih.cons item
      · rw [if_neg hany, if_neg hany]
        exact ih

end Fill

section Invert

variable [DecidableEq α] (refs : α → List κ)

/-- `table.setdefault(k, set()).add(item)` for each key an item refers to. -/
def refer (table : κ → List α) (item : α) : κ → List α :=
  (refs item).foldl (fun table k => Function.update table k ((table k).insert item)) table

def invert (items : List α) : κ → List α := items.foldl (refer refs) fun _ => []

theorem mem_refer (table : κ → List α) (item x : α) (k : κ) :
    x ∈ refer refs table item k ↔ x ∈ table k ∨ x = item ∧ k ∈ refs item := by
  rw [refer]
  induction refs item generalizing table with
  | nil => simp
  | cons j rest ih =>
      rw [List.foldl_cons, ih, List.mem_cons]
      by_cases hk : k = j
      · subst hk
        rw [Function.update_self, List.mem_insert_iff]
        tauto
      · rw [Function.update_of_ne hk]
        tauto

theorem nodup_refer {table : κ → List α} (htable : ∀ k, (table k).Nodup) (item : α) (k : κ) : (refer refs table item k).Nodup := by
  rw [refer]
  induction refs item generalizing table with
  | nil => exact htable k
  | cons j rest ih =>
      refine ih fun k' => ?_
      by_cases hk : k' = j
      · subst hk
        simpa only [Function.update_self] using (htable k').insert
      · simpa only [Function.update_of_ne hk] using htable k'

theorem mem_invert (items : List α) (x : α) (k : κ) : x ∈ invert refs items k ↔ x ∈ items ∧ k ∈ refs x := by
  induction items using List.reverseRecOn with
  | nil => simp [invert]
  | append_singleton items item ih =>
      rw [invert] at ih ⊢
      rw [List.foldl_append, List.foldl_cons, List.foldl_nil, mem_refer, ih, List.mem_append, List.mem_singleton]
      constructor
      · rintro (⟨hx, hk⟩ | ⟨rfl, hk⟩)
        · exact ⟨.inl hx, hk⟩
        · exact ⟨.inr rfl, hk⟩
      · rintro ⟨hx | rfl, hk⟩
        · exact .inl ⟨hx, hk⟩
        · exact .inr ⟨rfl, hk⟩

theorem nodup_invert (items : List α) (k : κ) : (invert refs items k).Nodup := by
  induction items using List.reverseRecOn generalizing k with
  | nil => exact List.nodup_nil
  | append_singleton items item ih =>
      rw [invert] at ih ⊢
      rw [List.foldl_append, List.foldl_cons, List.foldl_nil]
      exact nodup_refer refs ih item k

end Invert

end Foundation.Buckets
