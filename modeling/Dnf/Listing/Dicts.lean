import Dnf.Listing.PackageLists
import Mathlib.Data.List.Induction
import Mathlib.Data.List.Nodup

/-!
# Dictionaries that a loop fills

A loop over packages that looks its key up in a dict and stores what it makes of that: the dict has for a key what the same loop makes of the packages with that key alone. Three such loops list packages. One keeps the last of its key, one all of them, and one the newest.
-/

namespace Dnf.Listing

variable {α κ ν : Type} [DecidableEq κ]

theorem assign_nil (key : κ) (value : ν) : assign [] key value = [(key, value)] := rfl

theorem assign_cons (first : κ × ν) (rest : List (κ × ν)) (key : κ) (value : ν) :
    assign (first :: rest) key value = if first.1 = key then (key, value) :: rest else first :: assign rest key value := rfl

theorem mem_assign {d : List (κ × ν)} {key : κ} {value : ν} {entry : κ × ν} (h : entry ∈ assign d key value) :
    entry ∈ d ∨ entry = (key, value) := by
  induction d with
  | nil => exact .inr (List.mem_singleton.mp h)
  | cons first rest ih =>
      rw [assign_cons] at h
      split_ifs at h
      · rcases List.mem_cons.mp h with heq | hrest
        · exact .inr heq
        · exact .inl (List.mem_cons_of_mem _ hrest)
      · rcases List.mem_cons.mp h with rfl | hrest
        · exact .inl List.mem_cons_self
        · exact (ih hrest).imp_left (List.mem_cons_of_mem _)

theorem mem_keys_assign (d : List (κ × ν)) (key k : κ) (value : ν) : k ∈ (assign d key value).map Prod.fst ↔ k ∈ d.map Prod.fst ∨ k = key := by
  induction d with
  | nil => simp [assign_nil]
  | cons first rest ih =>
      rw [assign_cons]
      split_ifs with hkey
      · simp only [List.map_cons, List.mem_cons, hkey]
        tauto
      · rw [List.map_cons, List.map_cons, List.mem_cons, List.mem_cons, ih, or_assoc]

theorem nodup_keys_assign {d : List (κ × ν)} (hd : (d.map Prod.fst).Nodup) (key : κ) (value : ν) :
    ((assign d key value).map Prod.fst).Nodup := by
  induction d with
  | nil => exact List.nodup_singleton key
  | cons first rest ih =>
      obtain ⟨hfirst, hrest⟩ := List.nodup_cons.mp hd
      rw [assign_cons]
      split_ifs with hkey
      · exact List.nodup_cons.mpr ⟨hkey ▸ hfirst, hrest⟩
      · refine List.nodup_cons.mpr ⟨fun hmem => ?_, ih hrest⟩
        obtain ⟨entry, hentry, heq⟩ := List.mem_map.mp hmem
        rcases mem_assign hentry with hold | rfl
        · exact hfirst (heq ▸ List.mem_map_of_mem hold)
        · exact hkey heq.symm

variable [BEq κ] [LawfulBEq κ]

theorem lookup_assign (d : List (κ × ν)) (key k : κ) (value : ν) :
    (assign d key value).lookup k = if k = key then some value else d.lookup k := by
  induction d with
  | nil =>
      rw [assign_nil]
      split_ifs with hk
      · rw [hk, List.lookup_cons_self]
      · rw [List.lookup_cons, beq_false_of_ne hk]
  | cons first rest ih =>
      rw [assign_cons]
      split_ifs with hkey hk hk
      · rw [hk, List.lookup_cons_self]
      · rw [List.lookup_cons, List.lookup_cons, beq_false_of_ne hk, beq_false_of_ne (hkey ▸ hk)]
      · rw [List.lookup_cons, beq_false_of_ne (hk ▸ Ne.symm hkey), ih, if_pos hk]
      · rw [List.lookup_cons, List.lookup_cons, ih, if_neg hk]

theorem mem_iff_lookup {d : List (κ × ν)} (hd : (d.map Prod.fst).Nodup) (k : κ) (v : ν) : (k, v) ∈ d ↔ d.lookup k = some v := by
  induction d with
  | nil => exact iff_of_false (List.not_mem_nil) nofun
  | cons first rest ih =>
      obtain ⟨hfirst, hrest⟩ := List.nodup_cons.mp hd
      rw [List.mem_cons, List.lookup_cons, ih hrest]
      by_cases hk : k = first.1
      · subst hk
        rw [beq_self_eq_true]
        refine ⟨fun h => h.elim (fun heq => ?_) fun hlookup => ?_, fun h => .inl (Prod.ext rfl (Option.some.inj h).symm)⟩
        · rw [← heq]
        · exact absurd (List.mem_map_of_mem ((ih hrest).mpr hlookup)) hfirst
      · rw [beq_false_of_ne hk]
        exact or_iff_right fun heq => hk (congrArg Prod.fst heq)

/-! ### The loop -/

section Loop

variable (key : α → κ) (update : Option ν → α → Option ν)

/-- One round: what the key has now becomes what `update` makes of it, if it makes anything. -/
def record (d : List (κ × ν)) (x : α) : List (κ × ν) :=
  match update (d.lookup (key x)) x with
  | some value => assign d (key x) value
  | none => d

/-- What one round does to what a single key has. -/
def keep (held : Option ν) (x : α) : Option ν := (update held x).or held

theorem lookup_record (d : List (κ × ν)) (x : α) (k : κ) :
    (record key update d x).lookup k = if key x = k then keep update (d.lookup k) x else d.lookup k := by
  rw [record, keep]
  by_cases hk : key x = k
  · subst hk
    rw [if_pos rfl]
    cases hupdate : update (d.lookup (key x)) x with
    | none => rfl
    | some value => exact (lookup_assign d _ _ value).trans (if_pos rfl)
  · rw [if_neg hk]
    cases update (d.lookup (key x)) x with
    | none => rfl
    | some value => exact (lookup_assign d _ _ value).trans (if_neg (Ne.symm hk))

theorem lookup_foldl_record (l : List α) (d : List (κ × ν)) (k : κ) :
    (l.foldl (record key update) d).lookup k = (l.filter fun x => key x = k).foldl (keep update) (d.lookup k) := by
  induction l generalizing d with
  | nil => rfl
  | cons x rest ih =>
      rw [List.foldl_cons, ih, lookup_record, List.filter_cons]
      by_cases hk : key x = k <;> simp [hk]

omit [LawfulBEq κ] in
theorem nodup_keys_foldl_record (l : List α) {d : List (κ × ν)} (hd : (d.map Prod.fst).Nodup) :
    ((l.foldl (record key update) d).map Prod.fst).Nodup := by
  induction l generalizing d with
  | nil => exact hd
  | cons x rest ih =>
      refine ih ?_
      rw [record]
      cases update (d.lookup (key x)) x with
      | none => exact hd
      | some value => exact nodup_keys_assign hd _ _

theorem mem_foldl_record (l : List α) (k : κ) (v : ν) :
    (k, v) ∈ l.foldl (record key update) [] ↔ (l.filter fun x => key x = k).foldl (keep update) none = some v := by
  have hkeys : (([] : List (κ × ν)).map Prod.fst).Nodup := List.nodup_nil
  rw [mem_iff_lookup (nodup_keys_foldl_record key update l hkeys), lookup_foldl_record, List.lookup_nil]

end Loop

/-! ### The last, all, and the newest -/

theorem foldl_keep_last (l : List α) : l.foldl (keep fun _ x => some x) none = l.getLast? := by
  induction l using List.reverseRecOn with
  | nil => rfl
  | append_singleton l x ih =>
      rw [List.foldl_append, List.getLast?_append]
      rfl

/-- Where each round starts from what the key has or, the first time, from `init`. -/
theorem foldl_keep_getD (f : ν → α → ν) (init : ν) (l : List α) :
    l.foldl (keep fun held x => some (f (held.getD init) x)) none = if l = [] then none else some (l.foldl f init) := by
  induction l using List.reverseRecOn with
  | nil => rfl
  | append_singleton l x ih =>
      rw [List.foldl_append, ih, if_neg (List.append_ne_nil_of_right_ne_nil _ (List.cons_ne_nil _ _)), List.foldl_append]
      by_cases hl : l = []
      · rw [hl]
        rfl
      · rw [if_neg hl]
        rfl

theorem foldl_keep_all (l : List α) : l.foldl (keep fun held x => some (held.getD [] ++ [x])) none = if l = [] then none else some l := by
  rw [foldl_keep_getD (fun held x => held ++ [x])]
  congr 2
  induction l using List.reverseRecOn with
  | nil => rfl
  | append_singleton l x ih => rw [List.foldl_append, ih, List.foldl_cons, List.foldl_nil]

/-- Taking the place of what is older. -/
def newer (gt : α → α → Bool) (held : Option α) (x : α) : Option α :=
  match held with
  | none => some x
  | some newest => if gt x newest then some x else none

theorem foldl_keep_newest {gt : α → α → Bool} {cmp : α → α → Ordering} [Std.TransCmp cmp] (l : List α)
    (hgt : ∀ x ∈ l, ∀ y ∈ l, (gt x y = true ↔ cmp x y = .gt)) (hl : l ≠ []) :
    ∃ newest ∈ l, l.foldl (keep (newer gt)) none = some newest ∧ ∀ x ∈ l, (cmp x newest).isLE := by
  induction l using List.reverseRecOn with
  | nil => exact absurd rfl hl
  | append_singleton l x ih =>
      rw [List.foldl_append]
      have hx : x ∈ l ++ [x] := List.mem_append_right _ (List.mem_singleton_self x)
      have hself : (cmp x x).isLE := Std.ReflCmp.isLE_rfl
      by_cases hnil : l = []
      · subst hnil
        exact ⟨x, hx, rfl, fun y hy => List.mem_singleton.mp hy ▸ hself⟩
      have hsub : ∀ {y}, y ∈ l → y ∈ l ++ [x] := List.mem_append_left _
      obtain ⟨newest, hnewest, hfold, hmax⟩ := ih (fun y hy z hz => hgt y (hsub hy) z (hsub hz)) hnil
      rw [hfold]
      by_cases hnewer : gt x newest = true
      · have hlt : (cmp newest x).isLE := by
          rw [Std.OrientedCmp.gt_iff_lt.mp ((hgt x hx newest (hsub hnewest)).mp hnewer)]
          rfl
        refine ⟨x, hx, by simp [keep, newer, hnewer], fun y hy => ?_⟩
        rcases List.mem_append.mp hy with hold | hy
        · exact Std.TransCmp.isLE_trans (hmax y hold) hlt
        · exact List.mem_singleton.mp hy ▸ hself
      · refine ⟨newest, hsub hnewest, by simp [keep, newer, hnewer], fun y hy => ?_⟩
        rcases List.mem_append.mp hy with hold | hy
        · exact hmax y hold
        · rw [List.mem_singleton.mp hy, Ordering.isLE_iff_ne_gt]
          exact fun hcmp => hnewer ((hgt x hx newest (hsub hnewest)).mpr hcmp)

end Dnf.Listing
