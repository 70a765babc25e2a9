import Mathlib.Data.List.AList
import Dnf.Foundation.Log

/-!
# Entries that write several keys

Entries are stored one after another, and storing an entry writes to some keys. What a key holds in the end is its last write, so the order of the entries is irrelevant exactly if no two of them write different values to one key: two that do can be moved to the end, in either order.
-/

namespace Foundation.Log

variable {κ α ω : Type} [DecidableEq κ]

/-- A dictionary after the writes of a log. -/
def store (dict : AList (fun _ : κ => α)) (log : List (κ × α)) : AList (fun _ : κ => α) :=
  log.foldl (fun dict entry => dict.insert entry.1 entry.2) dict

theorem store_append (dict : AList (fun _ : κ => α)) (log log' : List (κ × α)) : store dict (log ++ log') = store (store dict log) log' := by
  rw [store, List.foldl_append]
  rfl

theorem lookup_store (dict : AList (fun _ : κ => α)) (log : List (κ × α)) (k : κ) :
    (store dict log).lookup k = (last log k).or (dict.lookup k) := by
  induction log using List.reverseRecOn with
  | nil => rfl
  | append_singleton log entry ih =>
      rw [store_append, last_concat]
      show ((store dict log).insert entry.1 entry.2).lookup k = _
      split_ifs with hk
      · rw [← hk, AList.lookup_insert]
        rfl
      · rw [AList.lookup_insert_ne (Ne.symm hk), ih]

variable (writes : ω → List (κ × α))

/-- No two entries write different values to one key. -/
def Agree (entries : List ω) : Prop :=
  ∀ x ∈ entries, ∀ y ∈ entries, ∀ k v v', (k, v) ∈ writes x → (k, v') ∈ writes y → v = v'

variable {writes}

theorem last_of_mem {log : List (κ × α)} {k : κ} {v : α} (hmem : (k, v) ∈ log) (hone : ∀ v', (k, v') ∈ log → v' = v) : last log k = some v := by
  cases hlast : last log k with
  | none => exact absurd hmem (last_eq_none_iff.mp hlast v)
  | some v' => rw [hone v' (mem_of_last hlast)]

omit [DecidableEq κ] in
theorem mem_flatMap_perm {entries entries' : List ω} (hperm : entries'.Perm entries) (entry : κ × α) :
    entry ∈ entries'.flatMap writes ↔ entry ∈ entries.flatMap writes := by
  simp only [List.mem_flatMap, hperm.mem_iff]

theorem last_eq_none_perm {entries entries' : List ω} (hperm : entries'.Perm entries) (k : κ) :
    last (entries'.flatMap writes) k = none ↔ last (entries.flatMap writes) k = none := by
  simp only [last_eq_none_iff, mem_flatMap_perm hperm]

/-- Two orders leave the same value if the entries agree. -/
theorem last_perm {entries entries' : List ω} (hperm : entries'.Perm entries) (hagree : Agree writes entries) (k : κ) :
    last (entries'.flatMap writes) k = last (entries.flatMap writes) k := by
  cases hlast : last (entries.flatMap writes) k with
  | none => exact (last_eq_none_perm hperm k).mpr hlast
  | some v =>
      apply last_of_mem ((mem_flatMap_perm hperm (k, v)).mpr (mem_of_last hlast))
      intro v' hv'
      obtain ⟨x, hx, hxv⟩ := List.mem_flatMap.mp ((mem_flatMap_perm hperm (k, v')).mp hv')
      obtain ⟨y, hy, hyv⟩ := List.mem_flatMap.mp (mem_of_last hlast)
      exact hagree x hx y hy k v' v hxv hyv

/-- The order of the entries is irrelevant exactly if they agree. -/
theorem last_perm_iff {entries : List ω} (hone : ∀ x ∈ entries, ∀ k v v', (k, v) ∈ writes x → (k, v') ∈ writes x → v = v') :
    (∀ entries' : List ω, entries'.Perm entries → ∀ k, last (entries'.flatMap writes) k = last (entries.flatMap writes) k) ↔
      Agree writes entries := by
  constructor
  · intro hsame x hx y hy k v v' hv hv'
    by_cases hxy : x = y
    · subst hxy
      exact hone x hx k v v' hv hv'
    · obtain ⟨before, after, rfl⟩ := List.append_of_mem hx
      have hy' : y ∈ before ++ after := by
        rcases List.mem_append.mp hy with h | h
        · exact List.mem_append_left _ h
        · exact List.mem_append_right _ ((List.mem_cons.mp h).resolve_left (Ne.symm hxy))
      obtain ⟨first, rest, hrest⟩ := List.append_of_mem hy'
      have hends : ∀ a b, ([a, b] : List ω).Perm [x, y] → (first ++ rest ++ [a, b]).Perm (before ++ x :: after) := by
        intro a b hab
        calc first ++ rest ++ [a, b]
            _ |>.Perm (first ++ rest ++ [x, y]) := hab.append_left _
            _ |>.Perm ([x, y] ++ (first ++ rest)) := List.perm_append_comm
            _ |>.Perm (x :: y :: (first ++ rest)) := .refl _
            _ |>.Perm (x :: (first ++ y :: rest)) := List.perm_middle.symm.cons x
            _ |>.Perm (before ++ x :: after) := by
              rw [← hrest]
              exact List.perm_middle.symm
      have hlast : ∀ a b w, (k, w) ∈ writes b → b ∈ before ++ x :: after → last ((first ++ rest ++ [a, b]).flatMap writes) k = some w := by
        intro a b w hw hb
        rw [show first ++ rest ++ [a, b] = first ++ rest ++ [a] ++ [b] by simp, List.flatMap_append, last_append, List.flatMap_singleton,
          last_of_mem hw fun w' hw' => hone b hb k w' w hw' hw, Option.some_or]
      have hxlast := hsame _ (hends y x (List.Perm.swap x y [])) k
      have hylast := hsame _ (hends x y (List.Perm.refl _)) k
      rw [hlast y x v hv hx] at hxlast
      rw [hlast x y v' hv' hy] at hylast
      exact Option.some.inj (hxlast.trans hylast.symm)
  · intro hagree entries' hperm k
    exact last_perm hperm hagree k

end Foundation.Log
