import Dnf.Listing.Dicts

/-!
# Dictionaries of dictionaries

A loop that stores values under two keys, `d.setdefault(key, dict())[subkey] = value`. Its pairs of keys are those that were stored, each once.
-/

namespace Dnf.Listing.NestedDicts

variable {κ ι ν : Type} [DecidableEq κ] [BEq κ] [LawfulBEq κ] [DecidableEq ι]

/-- `d.setdefault(key, dict())[subkey] = value` -/
def store (d : List (κ × List (ι × ν))) (entry : κ × ι × ν) : List (κ × List (ι × ν)) :=
  assign d entry.1 (assign ((d.lookup entry.1).getD []) entry.2.1 entry.2.2)

/-- The pairs of keys, in the order of the dictionaries. -/
def pairs (d : List (κ × List (ι × ν))) : List (κ × ι) := d.flatMap fun item => item.2.map fun sub => (item.1, sub.1)

/-- Each key once, on both levels. -/
structure Distinct (d : List (κ × List (ι × ν))) : Prop where
  keys : (d.map Prod.fst).Nodup
  subkeys : ∀ item ∈ d, (item.2.map Prod.fst).Nodup

variable {d d' : List (κ × List (ι × ν))} {entry : κ × ι × ν}

omit [DecidableEq κ] [BEq κ] [LawfulBEq κ] [DecidableEq ι] in
theorem mem_pairs {k : κ} {i : ι} : (k, i) ∈ pairs d ↔ ∃ ids, (k, ids) ∈ d ∧ i ∈ ids.map Prod.fst := by
  rw [pairs, List.mem_flatMap]
  constructor
  · intro ⟨item, hitem, hpair⟩
    obtain ⟨sub, hsub, heq⟩ := List.mem_map.mp hpair
    obtain ⟨rfl, rfl⟩ := Prod.mk.inj heq
    exact ⟨item.2, hitem, List.mem_map_of_mem hsub⟩
  · intro ⟨ids, hitem, hi⟩
    obtain ⟨sub, hsub, rfl⟩ := List.mem_map.mp hi
    exact ⟨(k, ids), hitem, List.mem_map_of_mem hsub⟩

omit [DecidableEq κ] [BEq κ] [LawfulBEq κ] [DecidableEq ι] in
theorem Distinct.nodup_pairs (hd : Distinct d) : (pairs d).Nodup := by
  rw [pairs, List.nodup_flatMap]
  constructor
  · intro item hitem
    have hsub := hd.subkeys item hitem
    have hmap : (item.2.map fun sub => (item.1, sub.1)) = (item.2.map Prod.fst).map fun i => (item.1, i) := List.map_map.symm
    rw [hmap]
    exact hsub.map fun i j h => congrArg Prod.snd h
  · have hkeys : d.Pairwise fun a b => a.1 ≠ b.1 := List.pairwise_map.mp hd.keys
    refine hkeys.imp fun hne => ?_
    intro pair ha hb
    obtain ⟨_, -, rfl⟩ := List.mem_map.mp ha
    obtain ⟨_, -, heq⟩ := List.mem_map.mp hb
    exact hne (congrArg Prod.fst heq).symm

omit [DecidableEq ι] in
theorem Distinct.lookup_subkeys (hd : Distinct d) (k : κ) : (((d.lookup k).getD []).map Prod.fst).Nodup := by
  cases hlookup : d.lookup k with
  | none => exact List.nodup_nil
  | some ids => exact hd.subkeys (k, ids) ((mem_iff_lookup hd.keys k ids).mpr hlookup)

theorem Distinct.store (hd : Distinct d) (entry : κ × ι × ν) : Distinct (store d entry) := by
  constructor
  · exact nodup_keys_assign hd.keys _ _
  · intro item hitem
    rcases mem_assign hitem with hold | rfl
    · exact hd.subkeys item hold
    · exact nodup_keys_assign (hd.lookup_subkeys entry.1) _ _

theorem mem_pairs_store (hd : Distinct d) (k : κ) (i : ι) : (k, i) ∈ pairs (store d entry) ↔ (k, i) ∈ pairs d ∨ (k, i) = (entry.1, entry.2.1) := by
  have hlookup {d : List (κ × List (ι × ν))} (hd : Distinct d) : (k, i) ∈ pairs d ↔ i ∈ ((d.lookup k).getD []).map Prod.fst := by
    rw [mem_pairs]
    simp only [mem_iff_lookup hd.keys]
    cases d.lookup k <;> simp
  rw [hlookup (hd.store entry), hlookup hd, NestedDicts.store, lookup_assign, Prod.mk.injEq]
  by_cases hk : k = entry.1
  · subst hk
    rw [if_pos rfl, Option.getD_some, mem_keys_assign]
    simp
  · rw [if_neg hk]
    simp [hk]

theorem foldl_store (entries : List (κ × ι × ν)) : Distinct (entries.foldl store []) ∧
    ∀ k i, (k, i) ∈ pairs (entries.foldl store []) ↔ ∃ entry ∈ entries, (k, i) = (entry.1, entry.2.1) := by
  induction entries using List.reverseRecOn with
  | nil => exact ⟨⟨List.nodup_nil, fun _ h => absurd h List.not_mem_nil⟩, fun k i => by simp [pairs]⟩
  | append_singleton entries entry ih =>
      rw [List.foldl_append]
      refine ⟨ih.1.store entry, fun k i => ?_⟩
      rw [List.foldl_cons, List.foldl_nil, mem_pairs_store ih.1, ih.2]
      simp only [List.mem_append, List.mem_singleton, or_and_right, exists_or, exists_eq_left]

omit [DecidableEq κ] [BEq κ] [LawfulBEq κ] [DecidableEq ι] in
theorem pairs_perm (h : d.Perm d') : (pairs d).Perm (pairs d') := h.flatMap_right _

end Dnf.Listing.NestedDicts
